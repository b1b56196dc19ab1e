import Mathlib.Data.List.Nodup
import Psbox.Gateway.Results

/-!
# The Host Connection of a Client That Left

A client that has left the private bus keeps its host connection until nothing that it
started needs it: the OpenURI calls sent to the host, and the requests these returned
(`close_if_done`).

`Hosted` is what the host has yet to answer, as someone sees it who watches the messages on
the host connection and nothing of the gateway's own books: a request belongs to the one whose
return named it, and only a response from there ends it, whoever the gateway listens to.
`KeptWhileNeeded` compares the gateway with it, and `kept_while_needed` says for which runs the
two agree.
-/

namespace Psbox.Gateway

open Psbox.DBus Psbox.Portal Psbox.Foundations

/-! ## Section 1: What the Host Has Yet to Answer -/

/-- A request, as the return that names it tells of it. -/
structure HostRequest where
  path : String
  /-- The sender of the return, who answers the request. -/
  holder : Option String
  deriving DecidableEq

/-- What ends requests: the client closes what is at a path, or the holder of one responds. -/
inductive RequestEnd where
  | closed (path : String)
  | responded (r : HostRequest)
  deriving DecidableEq

def RequestEnd.ends : RequestEnd → HostRequest → Bool
  | .closed path, r => r.path == path
  | .responded done, r => r == done

/-- A call that the host has not answered. -/
structure Awaited where
  serial : Nat
  /-- An OpenURI call. -/
  opens : Bool
  /-- Its request is about files. -/
  file : Bool
  /-- What ended requests since it was sent: a request may be over before it is named. -/
  ended : List RequestEnd
  deriving DecidableEq

structure Hosted where
  awaited : List Awaited := []
  /-- The OpenURI requests that are open. -/
  opened : List HostRequest := []
  /-- The file requests that are open. -/
  filed : List HostRequest := []
  deriving DecidableEq

def Call.opensUri (c : Call) : Bool :=
  c.via == .portal && c.msg.interface == some openUriIface

/-- The request that the message sent to the host for a call closes. -/
def closedBy (c : Call) (out : Message) : Option String :=
  if c.via = .portal ∧ out.isMember "org.freedesktop.portal.Request" "Close" then out.path else none

namespace Hosted

/-- The paths of the open OpenURI requests. -/
def requests (g : Hosted) : List String :=
  g.opened.map HostRequest.path

/-- The paths of the open file requests. -/
def files (g : Hosted) : List String :=
  g.filed.map HostRequest.path

/-- The host keeps the client's connection for something. -/
def outstanding (g : Hosted) : Bool :=
  g.awaited.any Awaited.opens || !g.opened.isEmpty

def endBy (g : Hosted) (e : RequestEnd) : Hosted :=
  { awaited := g.awaited.map fun w => { w with ended := e :: w.ended }
    opened := g.opened.filter (!e.ends ·)
    filed := g.filed.filter (!e.ends ·) }

def endIfAny (g : Hosted) : Option RequestEnd → Hosted
  | some e => g.endBy e
  | none => g

/-- A call is sent. -/
def send (g : Hosted) (serial : Nat) (c : Call) (file : Option FileRequest) (out : Message) : Hosted :=
  let g := g.endIfAny ((closedBy c out).map .closed)
  { g with awaited :=
      { serial := serial, opens := c.opensUri, file := file.isSome, ended := [] } :: g.awaited }

/-- The host answers the call with the serial, perhaps with a request that is still open. -/
def answer (g : Hosted) (serial : Nat) (named : Option HostRequest) : Hosted :=
  match g.awaited.find? (·.serial == serial) with
  | none => g
  | some w =>
      let fresh := (named.filter fun r => !w.ended.any (·.ends r)).toList
      { awaited := g.awaited.filter (·.serial ≠ serial)
        opened := if w.opens then fresh ++ g.opened else g.opened
        filed := if w.file then fresh ++ g.filed else g.filed }

end Hosted

/-- The request that a reply names. -/
def namedBy (m : Message) : Option HostRequest :=
  (handleOf m).map fun path => { path := path, holder := m.sender }

/-- The request that a signal is the response of. The bus itself holds none. -/
def responseOf (m : Message) : Option HostRequest :=
  if m.kind = Kind.signal ∧ m.sender ≠ some busName ∧
      m.isMember "org.freedesktop.portal.Request" "Response" then
    m.path.map fun path => { path := path, holder := m.sender }
  else none

/-- The bus tells that the portal has another owner, or none. -/
def portalChanged (m : Message) : Bool :=
  m.kind == Kind.signal && m.sender == some busName && m.isMember busName "NameOwnerChanged" &&
    match m.args with
    | .ok args => args.head?.bind Value.asStr == some portalName
    | .error _ => false

/-- A message is read from the host, whether or not it can be decoded: its header always can. -/
def Hosted.receive (g : Hosted) (a : Arrival) : Hosted :=
  if isReply a.header then
    match serialOf a.header, a with
    | some n, .message m _ => g.answer n (namedBy m)
    | some n, .undecodable u =>
        -- The return of an OpenURI call opens a request, and which one is in its body.
        if u.message.kind = Kind.methodReturn ∧ g.awaited.any (fun w => w.serial == n && w.opens) then g
        else g.answer n none
    | none, _ => g
  else
    match a with
    | .message m _ =>
        if portalChanged m then { g with opened := [] }
        else g.endIfAny ((responseOf m).map .responded)
    | .undecodable u => g.endIfAny ((responseOf u.message).map .responded)

/-- A call about to be written to the host connection. -/
structure Sending where
  call : Call
  file : Option FileRequest
  out : Message

def Stage.sending (c : Call) : Stage → Option Sending
  | .send _ file out => some { call := c, file := file, out := out }
  | _ => none

/-- The call that a step writes to the host connection, and whether that succeeds. -/
def Client.writes (s : Client) : Action → Option (Sending × Bool)
  | .serve via ch =>
      match s.serving via with
      | .forwarding c st => (st.sending c).map fun o => (o, ch.sent)
      | _ => none
  | .relay ch =>
      match s.reader with
      | .passing c st _ => (st.sending c).map fun o => (o, ch.sent)
      | _ => none
  | _ => none

/-- What the observer makes of a step. -/
def sees (s : Client) (a : Action) (g : Hosted) : Hosted :=
  match s.writes a, a with
  | some (o, true), _ => g.send s.serial o.call o.file o.out
  | some (_, false), _ => g
  | none, .receive arrival => g.receive arrival
  | none, _ => g

/-! ## Section 2: The Gateway's Books -/

/-- The reading thread waits for the next message. -/
def Reader.atRecv : Reader → Bool
  | .recv => true
  | _ => false

def Serving.isLeft : Serving → Bool
  | .left => true
  | _ => false

/-- What the gateway does with a host connection is what the host has open there. -/
structure KeptWhileNeeded (s : Client) (g : Hosted) : Prop where
  /-- It is not shut down while the host has something to answer. -/
  early : s.shut → g.outstanding = false
  /-- That of a client that has left is shut down once the host has nothing more to answer. -/
  late : s.gone → g.outstanding = false → s.reader.atRecv → (∀ via, ¬(s.serving via).isLeft) → s.shut
  /-- A request is recorded no longer than it is open. -/
  requests : s.reader.atRecv → ∀ path ∈ s.openRequests, path ∈ g.requests
  files : s.reader.atRecv → ∀ e ∈ s.fileRequests, e.1 ∈ g.files

/-- Until the host itself ends the connection. -/
def Kept (p : Client × Hosted) : Prop :=
  p.1.reader.ended ∨ KeptWhileNeeded p.1 p.2

/-! ## Section 3: When They Are Right -/

/-- The request at this path is taken for ended by the gateway, which goes by the owners that it
knows: the signal is a response from one of them. -/
def responsePath (s : Client) (m : Message) : Option String :=
  if m.kind = Kind.signal ∧ m.sender ≠ some busName ∧ fromOwner s m ∧
      signalForwarded (m.path.getD "") (m.interface.getD "") ∧
      m.isMember "org.freedesktop.portal.Request" "Response" then m.path
  else none

/-- What the reading thread has in hand for the books. -/
inductive Work where
  | idle
  /-- A reply that has not been matched with its call. -/
  | matching (m : Message)
  | answering
  /-- A message that is no reply. -/
  | noticed (m : Message)
  /-- A signal that is not from the bus. -/
  | signalled (m : Message)
  | delivering (m : Message)
  | ending
  | telling
  | closing

def Reader.work : Reader → Work
  | .received m _ => if isReply m then .matching m else .noticed m
  | .replying m _ => .matching m
  | .relaying _ _ _ => .answering
  | .signal m _ => .signalled m
  | .deliver m _ => .delivering m
  | .endRequests .closeIfDone => .ending
  | .telling _ .closeIfDone => .telling
  | .closeIfDone => .closing
  | _ => .idle

/-- A thread has taken the request off the list, and is yet to write its `Close`. -/
def Client.Closing (s : Client) (path : String) : Prop :=
  ∃ t c identified file out, s.At t c (.send identified file out) ∧ closedBy c out = some path

/-- The reading thread has the return that names the request, and is yet to record it. -/
def Client.Recording (s : Client) (path : String) : Prop :=
  ∃ m n p, s.reader.work = .matching m ∧ serialOf m = some n ∧ (n, p) ∈ s.pending ∧
    handleOf m = some path ∧ (p.opens ∨ p.file.isSome)

/-- A call that is written. An OpenURI call asks for a reply. A `Close` comes when nothing is
recorded under its path, and is not the last thing that the connection of a client that left
was kept for. -/
structure SendsCleanly (s : Client) (g : Hosted) (o : Sending) (ok : Bool) : Prop where
  expects : ok → o.call.opensUri → o.call.msg.expectsReply
  written : ok = false → ∀ path, closedBy o.call o.out = some path → path ∉ g.requests
  unrecorded : ok → ∀ path, closedBy o.call o.out = some path →
    path ∉ s.openRequests ∧ (∀ e ∈ s.fileRequests, e.1 ≠ path) ∧ ¬s.Recording path
  needed : ok → ∀ path, closedBy o.call o.out = some path → s.gone → g.outstanding →
    (g.endBy (.closed path)).outstanding

/-- Of the open requests, the gateway takes for ended the one that the message responds to. -/
def Heeds (s : Client) (g : Hosted) (m : Message) : Prop :=
  ∀ r ∈ g.opened ++ g.filed, responsePath s m = some r.path ↔ responseOf m = some r

/-- A message that is read. The return that names a request comes before all that ends it. A
message that cannot be decoded is no response to an open request, and no return of an OpenURI
call; where it is no reply but has the serial of one, then of a call that was sent and opens
nothing. -/
def ReadsCleanly (s : Client) (g : Hosted) : Arrival → Prop
  | .message m _ => Heeds s g m ∧ ∀ r, isReply m → namedBy m = some r → ∀ w ∈ g.awaited,
      serialOf m = some w.serial → (w.opens ∨ w.file) → ∀ e ∈ w.ended, e.ends r = false
  | .undecodable u =>
      (∀ r ∈ g.opened ++ g.filed, responseOf u.message ≠ some r) ∧
      (u.message.kind = Kind.methodReturn → ∀ w ∈ g.awaited, w.opens →
        serialOf u.message ≠ some w.serial) ∧
      (isReply u.message = false → ∀ n, serialOf u.message = some n →
        n < s.serial ∧ ∀ w ∈ g.awaited, w.opens → w.serial ≠ n)

/-- Where the connection would be shut down, no request is between the list and its `Close`. -/
def ClosesCleanly (s : Client) (g : Hosted) : Prop :=
  s.gone → (∀ e ∈ s.pending, e.2.opens = false) → s.openRequests = [] →
    ∀ path ∈ g.requests, ¬s.Closing path

/-- The response of a file request comes before its client leaves. -/
def DeliversCleanly (s : Client) (m : Message) : Prop :=
  s.gone → m.isMember "org.freedesktop.portal.Request" "Response" →
    ∀ e ∈ s.fileRequests, m.path ≠ some e.1

def ThreadKeepsBooks (s : Client) (g : Hosted) : Action → Prop
  | .receive a => ReadsCleanly s g a
  | .serve via _ => (s.serving via).isLeft → ClosesCleanly s g
  | .relay _ =>
      match s.reader.work with
      | .delivering m => DeliversCleanly s m
      | .closing => ClosesCleanly s g
      | _ => True
  | _ => True

/-- The condition on a step. -/
structure KeepsBooks (p : Client × Hosted) (a : Action) : Prop where
  sends : ∀ o ok, p.1.writes a = some (o, ok) → SendsCleanly p.1 p.2 o ok
  threads : ThreadKeepsBooks p.1 p.2 a

/-! ## Section 4: The Invariant -/

namespace Hosted

variable {g : Hosted}

theorem outstanding_eq_false : g.outstanding = false ↔
    (∀ w ∈ g.awaited, w.opens = false) ∧ g.requests = [] := by
  simp [outstanding, requests]

theorem mem_requests {path : String} : path ∈ g.requests ↔ ∃ r ∈ g.opened, r.path = path :=
  List.mem_map

theorem mem_files {path : String} : path ∈ g.files ↔ ∃ r ∈ g.filed, r.path = path :=
  List.mem_map

theorem mem_opened_endBy {e : RequestEnd} {r : HostRequest} :
    r ∈ (g.endBy e).opened ↔ r ∈ g.opened ∧ e.ends r = false := by
  simp [endBy]

theorem mem_filed_endBy {e : RequestEnd} {r : HostRequest} :
    r ∈ (g.endBy e).filed ↔ r ∈ g.filed ∧ e.ends r = false := by
  simp [endBy]

theorem mem_requests_endBy_closed {path there : String} :
    there ∈ (g.endBy (.closed path)).requests ↔ there ∈ g.requests ∧ there ≠ path := by
  simp only [mem_requests, mem_opened_endBy, RequestEnd.ends, beq_eq_false_iff_ne]
  constructor
  · rintro ⟨r, ⟨hr, hne⟩, rfl⟩
    exact ⟨⟨r, hr, rfl⟩, hne⟩
  · rintro ⟨⟨r, hr, rfl⟩, hne⟩
    exact ⟨r, ⟨hr, hne⟩, rfl⟩

theorem mem_files_endBy_closed {path there : String} :
    there ∈ (g.endBy (.closed path)).files ↔ there ∈ g.files ∧ there ≠ path := by
  simp only [mem_files, mem_filed_endBy, RequestEnd.ends, beq_eq_false_iff_ne]
  constructor
  · rintro ⟨r, ⟨hr, hne⟩, rfl⟩
    exact ⟨⟨r, hr, rfl⟩, hne⟩
  · rintro ⟨⟨r, hr, rfl⟩, hne⟩
    exact ⟨r, ⟨hr, hne⟩, rfl⟩

/-- A response to no open request ends none. -/
theorem endBy_responded {r : HostRequest} (hopened : r ∉ g.opened) (hfiled : r ∉ g.filed) :
    g.endBy (.responded r) = { g with
      awaited := g.awaited.map fun w => { w with ended := .responded r :: w.ended } } := by
  have hkept : ∀ {rs : List HostRequest}, r ∉ rs →
      rs.filter (!(RequestEnd.responded r).ends ·) = rs := by
    intro rs hr
    refine List.filter_eq_self.mpr fun there hthere => ?_
    have hne : there ≠ r := fun heq => hr (heq ▸ hthere)
    simp [RequestEnd.ends, hne]
  rw [endBy, hkept hopened, hkept hfiled]

/-- The same calls are awaited, and no more is open. -/
structure Fewer (g g' : Hosted) : Prop where
  calls : ∀ w' ∈ g'.awaited, ∃ w ∈ g.awaited,
    w'.serial = w.serial ∧ w'.opens = w.opens ∧ w'.file = w.file
  awaited : ∀ w ∈ g.awaited, ∃ w' ∈ g'.awaited,
    w'.serial = w.serial ∧ w'.opens = w.opens ∧ w'.file = w.file
  serials : g'.awaited.map Awaited.serial = g.awaited.map Awaited.serial
  requests : ∀ path ∈ g'.requests, path ∈ g.requests
  files : ∀ path ∈ g'.files, path ∈ g.files

theorem Fewer.refl (g : Hosted) : g.Fewer g :=
  ⟨fun w hw => ⟨w, hw, rfl, rfl, rfl⟩, fun w hw => ⟨w, hw, rfl, rfl, rfl⟩, rfl, fun _ => id,
    fun _ => id⟩

theorem fewer_endBy (g : Hosted) (e : RequestEnd) : g.Fewer (g.endBy e) := by
  constructor
  case calls =>
    intro w hw
    obtain ⟨w', hw', rfl⟩ := List.mem_map.mp hw
    exact ⟨w', hw', rfl, rfl, rfl⟩
  case awaited =>
    intro w hw
    exact ⟨_, List.mem_map_of_mem hw, rfl, rfl, rfl⟩
  case serials =>
    simp [endBy]
  case requests =>
    intro path hpath
    exact (List.filter_sublist.map _).subset hpath
  case files =>
    intro path hpath
    exact (List.filter_sublist.map _).subset hpath

theorem fewer_endIfAny (g : Hosted) (e : Option RequestEnd) : g.Fewer (g.endIfAny e) := by
  cases e with
  | none => exact Fewer.refl g
  | some e => exact fewer_endBy g e

theorem Fewer.outstanding {g' : Hosted} (hf : g.Fewer g') (h : g.outstanding = false) :
    g'.outstanding = false := by
  obtain ⟨hcalls, hrequests⟩ := outstanding_eq_false.mp h
  refine outstanding_eq_false.mpr ⟨?_, ?_⟩
  · intro w hw
    obtain ⟨w', hw', _, hopens, _⟩ := hf.calls w hw
    rw [hopens, hcalls w' hw']
  · refine List.eq_nil_iff_forall_not_mem.mpr ?_
    intro path hpath
    have hin := hf.requests path hpath
    rw [hrequests] at hin
    cases hin

end Hosted

/-- The calls of the gateway's books and those that the host has yet to answer, by serial. -/
structure Numbered (serial : Nat) (calls : List (Nat × Pending)) (registering : Option Nat)
    (g : Hosted) : Prop where
  serials : ∀ w ∈ g.awaited, w.serial < serial
  unique : (g.awaited.map Awaited.serial).Nodup
  below : ∀ e ∈ calls, e.1 < serial
  keys : (calls.map Prod.fst).Nodup
  registering : ∀ n, registering = some n →
    n < serial ∧ (∀ e ∈ calls, e.1 ≠ n) ∧ ∀ w ∈ g.awaited, w.serial ≠ n
  /-- An OpenURI call that the host has not answered is pending. -/
  pending : ∀ w ∈ g.awaited, w.opens → ∃ p, (w.serial, p) ∈ calls ∧ p.opens

theorem Numbered.fewer {serial : Nat} {calls : List (Nat × Pending)} {registering : Option Nat}
    {g g' : Hosted} (h : Numbered serial calls registering g) (hf : g.Fewer g') :
    Numbered serial calls registering g' := by
  refine {
    serials := ?serials, unique := hf.serials ▸ h.unique, below := h.below, keys := h.keys,
    registering := ?registering, pending := ?pending }
  case serials =>
    intro w hw
    obtain ⟨w', hw', hserial, _, _⟩ := hf.calls w hw
    rw [hserial]
    exact h.serials w' hw'
  case registering =>
    intro n hn
    obtain ⟨hlt, hpending, hawaited⟩ := h.registering n hn
    refine ⟨hlt, hpending, ?_⟩
    intro w hw
    obtain ⟨w', hw', hserial, _, _⟩ := hf.calls w hw
    rw [hserial]
    exact hawaited w' hw'
  case pending =>
    intro w hw hopens
    obtain ⟨w', hw', hserial, hopens', _⟩ := hf.calls w hw
    rw [hserial]
    exact h.pending w' hw' (hopens'.symm.trans hopens)

/-- The work ends with a look at whether the connection is needed. -/
def Work.Due (s : Client) : Work → Prop
  | .idle => False
  | .matching m => ∃ n p, serialOf m = some n ∧ (n, p) ∈ s.pending ∧ p.opens
  | .noticed m => (responsePath s m).isSome ∨ portalChanged m
  | .signalled m => (responsePath s m).isSome
  | _ => True

/-- How the gateway's books and what the host has open go together between two steps. -/
structure Tracked (s : Client) (g : Hosted) : Prop
    extends Numbered s.serial s.pending s.portal.registering g where
  /-- A pending call is not answered, or its reply is in the reading thread's hands. -/
  awaited : ∀ n p, (n, p) ∈ s.pending →
    (∃ w ∈ g.awaited, w.serial = n ∧ w.opens = p.opens ∧ w.file = p.file.isSome) ∨
      ∃ m, s.reader.work = .matching m ∧ serialOf m = some n
  inHand : ∀ m n, s.reader.work = .matching m → serialOf m = some n → n < s.serial
  /-- The reply that is matched is of no OpenURI call that the host has yet to answer, and the
  request it names is open. -/
  matched : ∀ m n p, s.reader.work = .matching m → serialOf m = some n → (n, p) ∈ s.pending →
    (∀ w ∈ g.awaited, w.opens → w.serial ≠ n) ∧ ∀ path, handleOf m = some path →
      (p.opens → path ∈ g.requests) ∧ (p.file.isSome → path ∈ g.files)
  /-- An open request is listed, or about to be, or its `Close` is about to be written. -/
  listed : ∀ path ∈ g.requests, path ∈ s.openRequests ∨ s.Closing path ∨
    ∃ m n p, s.reader.work = .matching m ∧ serialOf m = some n ∧ (n, p) ∈ s.pending ∧ p.opens ∧
      handleOf m = some path
  /-- A listed request is open, or about to be taken off the list. -/
  open_ : ∀ path ∈ s.openRequests, path ∈ g.requests ∨ s.reader.work = .ending ∨
    (∃ m, (s.reader.work = .noticed m ∨ s.reader.work = .signalled m) ∧
      responsePath s m = some path) ∨
    ∃ m, s.reader.work = .noticed m ∧ portalChanged m
  filed : ∀ e ∈ s.fileRequests, e.1 ∈ g.files ∨
    (∃ m, (s.reader.work = .noticed m ∨ s.reader.work = .signalled m) ∧
      responsePath s m = some e.1) ∨
    ∃ m, s.reader.work = .delivering m ∧ m.isMember "org.freedesktop.portal.Request" "Response" ∧
      m.path = some e.1
  ending : (s.reader.work = .ending ∨ ∃ m, s.reader.work = .noticed m ∧ portalChanged m) →
    g.requests = []
  signalled : ∀ m, s.reader.work = .signalled m → m.kind = Kind.signal ∧ m.sender ≠ some busName
  /-- The request that the signal in hand ends is not open any more. -/
  past : ∀ m path, (s.reader.work = .noticed m ∨ s.reader.work = .signalled m) →
    responsePath s m = some path → path ∉ g.requests
  early : s.shut → g.outstanding = false
  /-- A connection that is not needed any more is shut down, or about to be. -/
  due : s.gone → g.outstanding = false → s.shut ∨ (∃ via, (s.serving via).isLeft) ∨
    s.reader.work.Due s

theorem Tracked.kept {s : Client} {g : Hosted} (h : Tracked s g) : KeptWhileNeeded s g := by
  have hidle : s.reader.atRecv → s.reader.work = .idle := by
    intro hrecv
    cases hreader : s.reader with
    | recv => rfl
    | _ => rw [hreader] at hrecv; cases hrecv
  constructor
  case early =>
    exact h.early
  case late =>
    intro hgone hnone hrecv hleft
    rcases h.due hgone hnone with hshut | ⟨via, hvia⟩ | hwork
    · exact hshut
    · exact absurd hvia (hleft via)
    · rw [hidle hrecv] at hwork
      exact hwork.elim
  case requests =>
    intro hrecv path hpath
    have hwork := hidle hrecv
    rcases h.open_ path hpath with hopen | hend | ⟨m, hm | hm, _⟩ | ⟨m, hm, _⟩
    · exact hopen
    all_goals simp_all
  case files =>
    intro hrecv e he
    have hwork := hidle hrecv
    rcases h.filed e he with hopen | ⟨m, hm | hm, _⟩ | ⟨m, hm, _⟩
    · exact hopen
    all_goals simp_all

/-! ## Section 5: Steps that Leave the Books Alone -/

section Steps

variable {cfg : Setup} {s r s' : Client} {g : Hosted} {t : Thread} {c : Call} {st : Stage}

theorem responsePath_congr (h : s'.owners = s.owners) (m : Message) :
    responsePath s' m = responsePath s m := by
  have howner : fromOwner s' m = fromOwner s m := by
    unfold fromOwner
    rw [h]
  unfold responsePath
  rw [howner]

/-- A step that changes none of the books, nor what the reading thread has in hand for them,
except that a request may be taken off the list for its `Close`. -/
structure SameBooks (s s' : Client) (g : Hosted) : Prop where
  gone : s'.gone = s.gone
  shut : s'.shut = s.shut
  pending : s'.pending = s.pending
  openRequests : ∀ path ∈ s'.openRequests, path ∈ s.openRequests
  listed : ∀ path ∈ g.requests, path ∈ s.openRequests → path ∈ s'.openRequests ∨ s'.Closing path
  fileRequests : s'.fileRequests = s.fileRequests
  owners : s'.owners = s.owners
  work : s'.reader.work = s.reader.work
  serial : s.serial ≤ s'.serial
  registering : ∀ n, s'.portal.registering = some n →
    s.portal.registering = some n ∨ (n = s.serial ∧ s.serial < s'.serial)
  closing : ∀ path ∈ g.requests, s.Closing path → s'.Closing path
  left : ∀ via, (s.serving via).isLeft → (s'.serving via).isLeft

theorem Tracked.same (h : Tracked s g) (hs : SameBooks s s' g) : Tracked s' g := by
  have hresponse := responsePath_congr hs.owners
  have hserial := hs.serial
  constructor
  case toNumbered =>
    refine {
      serials := ?serials, unique := h.unique, below := ?below, keys := hs.pending ▸ h.keys,
      registering := ?registering, pending := hs.pending ▸ h.pending }
    case serials =>
      intro w hw
      exact Nat.lt_of_lt_of_le (h.serials w hw) hserial
    case below =>
      rw [hs.pending]
      intro e he
      exact Nat.lt_of_lt_of_le (h.below e he) hserial
    case registering =>
      rw [hs.pending]
      intro n hn
      rcases hs.registering n hn with hold | ⟨rfl, hlt⟩
      · obtain ⟨hlt, hrest⟩ := h.registering n hold
        exact ⟨Nat.lt_of_lt_of_le hlt hserial, hrest⟩
      · exact ⟨hlt, fun e he => Nat.ne_of_lt (h.below e he), fun w hw => Nat.ne_of_lt (h.serials w hw)⟩
  case awaited =>
    rw [hs.pending, hs.work]
    exact h.awaited
  case inHand =>
    rw [hs.work]
    intro m n hm hn
    exact Nat.lt_of_lt_of_le (h.inHand m n hm hn) hserial
  case matched =>
    rw [hs.pending, hs.work]
    exact h.matched
  case listed =>
    rw [hs.pending, hs.work]
    -- The request is listed, or about to be closed, or what the reply in hand opens.
    intro path hpath
    rcases h.listed path hpath with hlisted | hclosing | hmatching
    · exact (hs.listed path hpath hlisted).imp_right Or.inl
    · exact Or.inr (Or.inl (hs.closing path hpath hclosing))
    · exact Or.inr (Or.inr hmatching)
  case open_ =>
    rw [hs.work]
    simp only [hresponse]
    intro path hpath
    exact h.open_ path (hs.openRequests path hpath)
  case filed =>
    rw [hs.work, hs.fileRequests]
    simp only [hresponse]
    exact h.filed
  case ending =>
    rw [hs.work]
    exact h.ending
  case signalled =>
    rw [hs.work]
    exact h.signalled
  case past =>
    rw [hs.work]
    simp only [hresponse]
    exact h.past
  case early =>
    rw [hs.shut]
    exact h.early
  case due =>
    rw [hs.gone, hs.shut, hs.work]
    intro hgone hnone
    -- The connection is shut, or some thread has still to look whether it can be.
    rcases h.due hgone hnone with hshut | ⟨via, hvia⟩ | hdue
    · exact Or.inl hshut
    · exact Or.inr (Or.inl ⟨via, hs.left via hvia⟩)
    · refine Or.inr (Or.inr ?_)
      cases hwork : s.reader.work with
      | matching m =>
          rw [hwork] at hdue
          show ∃ n p, _ ∧ (n, p) ∈ s'.pending ∧ _
          rw [hs.pending]
          exact hdue
      | noticed m | signalled m =>
          rw [hwork] at hdue
          simp only [Work.Due, hresponse]
          exact hdue
      | _ =>
          rw [hwork] at hdue
          exact hdue

/-! ## Section 6: Passing a Call On -/

theorem at_goOn_self : (s.goOn t c st).At t c st := by
  cases t with
  | serving via => exact if_pos rfl
  | reader rest => rfl

/-- The thread of a call moves on, and no other. -/
structure Moves (s r s' : Client) (c : Call) (st : Stage) : Prop where
  fields : ∃ serving reader, s' = { r with serving := serving, reader := reader }
  work : s'.reader.work = s.reader.work
  left : ∀ via, (s.serving via).isLeft → (s'.serving via).isLeft
  closing : ∀ path, s.Closing path →
    (∀ identified file out, st = .send identified file out → closedBy c out ≠ some path) →
    s'.Closing path

/-- What a thread does with its call is seen nowhere else. -/
theorem moves_of_after {o : Outcome} (hat : s.At t c st) (hafter : r.after t c o = some s')
    (hserving : r.serving = s.serving) (hreader : r.reader = s.reader) : Moves s r s' c st := by
  -- The thread is one that serves, or the one that reads.
  cases t with
  | serving via =>
      have hhere : s.serving via = .forwarding c st := hat
      obtain ⟨there, rfl, hnot⟩ : ∃ there, s' = r.setServing via there ∧ there.isLeft = false := by
        cases o with
        | handBack => cases hafter
        | _ => exact ⟨_, (Option.some.inj hafter).symm, rfl⟩
      have hother : ∀ via', via' ≠ via → (r.setServing via there).serving via' = s.serving via' := by
        intro via' hne
        show (if via' = via then there else r.serving via') = _
        rw [if_neg hne, hserving]
      refine ⟨⟨_, _, rfl⟩, congrArg Reader.work hreader, ?_, ?_⟩
      · intro via' hleft
        by_cases hvia : via' = via
        · rw [hvia, hhere] at hleft
          cases hleft
        · rw [hother via' hvia]
          exact hleft
      · rintro path ⟨t', c', identified, file, out, hat', hcloses⟩ hsend
        refine ⟨t', c', identified, file, out, ?_, hcloses⟩
        cases t' with
        | serving via' =>
            by_cases hvia : via' = via
            · subst hvia
              obtain ⟨rfl, rfl⟩ := Serving.forwarding.inj (hhere.symm.trans hat')
              exact absurd hcloses (hsend _ _ _ rfl)
            · exact (hother via' hvia).trans hat'
        | reader rest => exact hreader.trans hat'
  | reader rest =>
      have hhere : s.reader = .passing c st rest := hat
      have hidle : s.reader.work = .idle := by
        rw [hhere]
        rfl
      obtain ⟨there, rfl, hwork⟩ : ∃ there, s' = r.setReader there ∧ there.work = .idle := by
        cases o <;> exact ⟨_, (Option.some.inj hafter).symm, rfl⟩
      refine ⟨⟨_, _, rfl⟩, hwork.trans hidle.symm, ?_, ?_⟩
      · intro via' hleft
        show (r.serving via').isLeft
        rw [hserving]
        exact hleft
      · rintro path ⟨t', c', identified, file, out, hat', hcloses⟩ hsend
        refine ⟨t', c', identified, file, out, ?_, hcloses⟩
        cases t' with
        | serving via' => exact (congrFun hserving via').trans hat'
        | reader rest' =>
            obtain ⟨rfl, rfl, rfl⟩ := Reader.passing.inj (hhere.symm.trans hat')
            exact absurd hcloses (hsend _ _ _ rfl)

/-- A step of `forward` before the request list is touched. -/
theorem same_of_early {ch : Choice} {o : Outcome} (hat : s.At t c st) (hst : st.early)
    (h : forwardStep cfg s t.fromHeld c st ch = some (r, o)) (hafter : r.after t c o = some s') :
    SameBooks s s' g := by
  obtain ⟨portal, log, serial, rfl, hserial, hregistering⟩ := forwardStep_early hst h
  obtain ⟨⟨serving, reader, hs'⟩, hwork, hleft, hcloses⟩ := moves_of_after hat hafter rfl rfl
  have hclosing : ∀ path, s.Closing path → s'.Closing path := by
    intro path hpath
    refine hcloses path hpath ?_
    rintro identified file out rfl
    cases hst
  subst hs'
  exact ⟨rfl, rfl, rfl, fun _ => id, fun _ _ => Or.inl, rfl, rfl, hwork, hserial, hregistering,
    fun path _ => hclosing path, hleft⟩

theorem mem_unlist {out : Message} {path : String} :
    path ∈ (unlist s c out).openRequests ↔ path ∈ s.openRequests ∧ closedBy c out ≠ some path := by
  unfold unlist closedBy
  cases out.path with
  | none => simp
  | some there =>
      simp only
      split
      · simp only [List.mem_filter, decide_eq_true_eq, ne_eq, Option.some.injEq]
        exact and_congr_right fun _ => not_congr eq_comm
      · simp

/-- A request is taken off the list before its `Close` is written. -/
theorem same_of_unlist {ch : Choice} {o : Outcome} {identified : Bool} {file : Option FileRequest}
    {out : Message} (hat : s.At t c (.unlist identified file out))
    (h : forwardStep cfg s t.fromHeld c (.unlist identified file out) ch = some (r, o))
    (hafter : r.after t c o = some s') : SameBooks s s' g := by
  obtain ⟨rfl, rfl⟩ := Prod.mk.inj (Option.some.inj h)
  have hmem : ∀ path, path ∈ (unlist s c out).openRequests ↔
      path ∈ s.openRequests ∧ closedBy c out ≠ some path := fun path => mem_unlist
  obtain ⟨openRequests, hunlist⟩ := unlist_eq s c out
  rw [hunlist] at hafter hmem
  have hsending : s'.At t c (.send identified file out) := by
    cases hafter
    exact at_goOn_self
  obtain ⟨⟨serving, reader, hs'⟩, hwork, hleft, hcloses⟩ := moves_of_after hat hafter rfl rfl
  have hclosing : ∀ path, s.Closing path → s'.Closing path := by
    intro path hpath
    exact hcloses path hpath fun _ _ _ hst => by cases hst
  subst hs'
  refine ⟨rfl, rfl, rfl, ?_, ?_, rfl, rfl, hwork, Nat.le_refl _, fun n => Or.inl,
    fun path _ => hclosing path, hleft⟩
  · intro path hpath
    exact ((hmem path).mp hpath).1
  · intro path _ hlisted
    by_cases hclosed : closedBy c out = some path
    · exact Or.inr ⟨t, c, identified, file, out, hsending, hclosed⟩
    · exact Or.inl ((hmem path).mpr ⟨hlisted, hclosed⟩)

/-! ## Section 7: A Call Is Written -/

/-- Requests end, and none that the books have. -/
theorem Tracked.ended (h : Tracked s g) {e : RequestEnd}
    (hopen : ∀ path ∈ s.openRequests, path ∈ g.requests → path ∈ (g.endBy e).requests)
    (hfile : ∀ x ∈ s.fileRequests, x.1 ∈ g.files → x.1 ∈ (g.endBy e).files)
    (hrecording : ∀ path, s.Recording path → (path ∈ g.requests → path ∈ (g.endBy e).requests) ∧
      (path ∈ g.files → path ∈ (g.endBy e).files))
    (hneeded : s.gone → g.outstanding → (g.endBy e).outstanding) : Tracked s (g.endBy e) := by
  have hfewer := Hosted.fewer_endBy g e
  constructor
  case toNumbered =>
    exact h.toNumbered.fewer hfewer
  case awaited =>
    intro n p hp
    refine (h.awaited n p hp).imp_left ?_
    rintro ⟨w, hw, hserial, hopens, hfile⟩
    obtain ⟨w', hw', hserial', hopens', hfile'⟩ := hfewer.awaited w hw
    exact ⟨w', hw', hserial'.trans hserial, hopens'.trans hopens, hfile'.trans hfile⟩
  case inHand =>
    exact h.inHand
  case matched =>
    intro m n p hm hn hp
    obtain ⟨hcalls, hpaths⟩ := h.matched m n p hm hn hp
    refine ⟨?_, ?_⟩
    · intro w hw hopens
      obtain ⟨w', hw', hserial, hopens', _⟩ := hfewer.calls w hw
      rw [hserial]
      exact hcalls w' hw' (hopens'.symm.trans hopens)
    · intro path hpath
      obtain ⟨hrequest, hfiled⟩ := hpaths path hpath
      have hkept : p.opens ∨ p.file.isSome → _ := fun hfor =>
        hrecording path ⟨m, n, p, hm, hn, hp, hpath, hfor⟩
      exact ⟨fun hopens => (hkept (Or.inl hopens)).1 (hrequest hopens),
        fun hkind => (hkept (Or.inr hkind)).2 (hfiled hkind)⟩
  case listed =>
    intro path hpath
    exact h.listed path (hfewer.requests path hpath)
  case open_ =>
    intro path hpath
    exact (h.open_ path hpath).imp_left (hopen path hpath)
  case filed =>
    intro x hx
    exact (h.filed x hx).imp_left (hfile x hx)
  -- Where there was no request left there is none now.
  case ending =>
    intro hend
    refine List.eq_nil_iff_forall_not_mem.mpr fun path hpath => ?_
    have hin := hfewer.requests path hpath
    rw [h.ending hend] at hin
    cases hin
  case signalled =>
    exact h.signalled
  case past =>
    intro m path hm hresponse hin
    exact h.past m path hm hresponse (hfewer.requests path hin)
  case early =>
    intro hshut
    exact hfewer.outstanding (h.early hshut)
  case due =>
    intro hgone hnone
    refine h.due hgone ?_
    -- What a client that has left waits for is waited for still, so there was nothing before.
    cases hout : g.outstanding with
    | false => rfl
    | true =>
        rw [hneeded hgone hout] at hnone
        cases hnone

/-- A request is closed, with nothing in the books under its path. -/
theorem Tracked.close (h : Tracked s g) {path : String} (hopen : path ∉ s.openRequests)
    (hfile : ∀ e ∈ s.fileRequests, e.1 ≠ path) (hrecording : ¬s.Recording path)
    (hneeded : s.gone → g.outstanding → (g.endBy (.closed path)).outstanding) :
    Tracked s (g.endBy (.closed path)) := by
  refine h.ended ?_ ?_ ?_ hneeded
  · intro there hthere hin
    refine Hosted.mem_requests_endBy_closed.mpr ⟨hin, ?_⟩
    rintro rfl
    exact hopen hthere
  · intro e he hin
    exact Hosted.mem_files_endBy_closed.mpr ⟨hin, hfile e he⟩
  · intro there hthere
    have hne : there ≠ path := by
      rintro rfl
      exact hrecording hthere
    exact ⟨fun hin => Hosted.mem_requests_endBy_closed.mpr ⟨hin, hne⟩,
      fun hin => Hosted.mem_files_endBy_closed.mpr ⟨hin, hne⟩⟩

/-- A call is written under a new serial. -/
theorem Tracked.await (h : Tracked s g) (hshut : s.shut = false) {w : Awaited}
    (hserial : w.serial = s.serial) {pending : List (Nat × Pending)}
    (hpending : (∃ p, pending = (s.serial, p) :: s.pending ∧ p.opens = w.opens ∧
        p.file.isSome = w.file) ∨ (pending = s.pending ∧ w.opens = false)) :
    Tracked { s with serial := s.serial + 1, pending := pending }
      { g with awaited := w :: g.awaited } := by
  -- A call that expects no reply is not recorded; nothing else changes.
  have hsub : ∀ e ∈ s.pending, e ∈ pending := by
    intro e he
    rcases hpending with ⟨p, rfl, _⟩ | ⟨rfl, _⟩
    · exact List.mem_cons_of_mem _ he
    · exact he
  have hnew : ∀ e ∈ pending, e ∈ s.pending ∨
      (e.1 = s.serial ∧ w.opens = e.2.opens ∧ w.file = e.2.file.isSome) := by
    intro e he
    rcases hpending with ⟨p, rfl, hopens, hfile⟩ | ⟨rfl, _⟩
    · rcases List.mem_cons.mp he with rfl | he
      · exact Or.inr ⟨rfl, hopens.symm, hfile.symm⟩
      · exact Or.inl he
    · exact Or.inl he
  have hout : Hosted.outstanding { g with awaited := w :: g.awaited } = false →
      g.outstanding = false := by
    intro hnone
    obtain ⟨hcalls, hrequests⟩ := Hosted.outstanding_eq_false.mp hnone
    exact Hosted.outstanding_eq_false.mpr ⟨fun w' hw' => hcalls w' (List.mem_cons_of_mem _ hw'),
      hrequests⟩
  constructor
  case toNumbered =>
    refine {
      serials := ?serials, unique := ?unique, below := ?below, keys := ?keys,
      registering := ?registering, pending := ?pending }
    case serials =>
      intro w' hw'
      rcases List.mem_cons.mp hw' with rfl | hw'
      · exact hserial ▸ Nat.lt_succ_self _
      · exact Nat.lt_succ_of_lt (h.serials w' hw')
    case unique =>
      refine List.nodup_cons.mpr ⟨?_, h.unique⟩
      intro hin
      obtain ⟨w', hw', hsame⟩ := List.mem_map.mp hin
      exact Nat.ne_of_lt (h.serials w' hw') (hsame.trans hserial)
    case below =>
      intro e he
      rcases hnew e he with hold | ⟨heq, _⟩
      · exact Nat.lt_succ_of_lt (h.below e hold)
      · exact heq ▸ Nat.lt_succ_self _
    case keys =>
      rcases hpending with ⟨p, rfl, _⟩ | ⟨rfl, _⟩
      · refine List.nodup_cons.mpr ⟨?_, h.keys⟩
        intro hin
        obtain ⟨e, he, hsame⟩ := List.mem_map.mp hin
        exact Nat.ne_of_lt (h.below e he) hsame
      · exact h.keys
    case registering =>
      intro n hn
      obtain ⟨hlt, hnone, hcalls⟩ := h.registering n hn
      refine ⟨Nat.lt_succ_of_lt hlt, ?_, ?_⟩
      · intro e he
        rcases hnew e he with hold | ⟨heq, _⟩
        · exact hnone e hold
        · exact heq ▸ (Nat.ne_of_lt hlt).symm
      · intro w' hw'
        rcases List.mem_cons.mp hw' with rfl | hw'
        · exact hserial ▸ (Nat.ne_of_lt hlt).symm
        · exact hcalls w' hw'
    case pending =>
      intro w' hw' hopens
      rcases List.mem_cons.mp hw' with rfl | hw'
      · rcases hpending with ⟨p, rfl, hp, _⟩ | ⟨_, hnot⟩
        · exact ⟨p, by rw [hserial]; exact List.mem_cons_self, hp.trans hopens⟩
        · rw [hnot] at hopens
          cases hopens
      · obtain ⟨p, hp, hfor⟩ := h.pending w' hw' hopens
        exact ⟨p, hsub _ hp, hfor⟩
  case awaited =>
    intro n p hp
    rcases hnew (n, p) hp with hold | ⟨heq, hopens, hfile⟩
    · exact (h.awaited n p hold).imp_left fun ⟨w', hw', hrest⟩ =>
        ⟨w', List.mem_cons_of_mem _ hw', hrest⟩
    · exact Or.inl ⟨w, List.mem_cons_self, hserial.trans heq.symm, hopens, hfile⟩
  case inHand =>
    intro m n hm hn
    exact Nat.lt_succ_of_lt (h.inHand m n hm hn)
  case matched =>
    intro m n p hm hn hp
    have hlt := h.inHand m n hm hn
    rcases hnew (n, p) hp with hold | ⟨heq, _⟩
    · obtain ⟨hcalls, hpaths⟩ := h.matched m n p hm hn hold
      refine ⟨?_, hpaths⟩
      intro w' hw' hopens
      rcases List.mem_cons.mp hw' with rfl | hw'
      · exact hserial ▸ (Nat.ne_of_lt hlt).symm
      · exact hcalls w' hw' hopens
    · exact absurd heq (Nat.ne_of_lt hlt)
  case listed =>
    intro path hpath
    refine (h.listed path hpath).imp_right fun hrest => hrest.imp_right ?_
    rintro ⟨m, n, p, hm, hn, hp, hfor⟩
    exact ⟨m, n, p, hm, hn, hsub _ hp, hfor⟩
  case open_ =>
    exact h.open_
  case filed =>
    exact h.filed
  case ending =>
    exact h.ending
  case signalled =>
    exact h.signalled
  case past =>
    exact h.past
  case early =>
    intro hshut'
    rw [hshut] at hshut'
    cases hshut'
  case due =>
    -- With the new call the host has no less to answer.
    intro hgone hnone
    refine (h.due hgone (hout hnone)).imp_right fun hrest => hrest.imp_right ?_
    intro hwork
    cases hreader : s.reader.work with
    | matching m =>
        rw [hreader] at hwork
        obtain ⟨n, p, hn, hp, hopens⟩ := hwork
        exact ⟨n, p, hn, hsub _ hp, hopens⟩
    | _ =>
        rw [hreader] at hwork
        exact hwork

/-- What a call that is written ends is closed first. -/
theorem Tracked.closes (h : Tracked s g) {o : Sending} (hclean : SendsCleanly s g o true) :
    Tracked s (g.endIfAny ((closedBy o.call o.out).map .closed)) := by
  cases hclosed : closedBy o.call o.out with
  | none => exact h
  | some path =>
      obtain ⟨hopen, hfile, hrecording⟩ := hclean.unrecorded rfl path hclosed
      exact h.close hopen hfile hrecording (hclean.needed rfl path hclosed)

theorem not_mem_of_closed {path : String} :
    path ∉ (g.endIfAny (some (.closed path))).requests := by
  simp [Hosted.endIfAny, Hosted.mem_requests_endBy_closed]

theorem tracked_send {identified : Bool} {file : Option FileRequest} {out : Message} {ch : Choice}
    {o : Outcome} (hinv : Tracked s g) (hat : s.At t c (.send identified file out))
    (h : sendCall s c identified file out ch = some (r, o)) (hafter : r.after t c o = some s')
    (hclean : SendsCleanly s g ⟨c, file, out⟩ ch.sent) :
    Tracked s' (if ch.sent then g.send s.serial c file out else g) := by
  unfold sendCall at h
  split at h
  · cases h
  rename_i hcan
  split at h
  · -- The call could not be written: an open request is not what it would have closed.
    rename_i hfailed
    have hsent : ch.sent = false := by simpa using hfailed
    cases h
    rw [hsent] at hclean ⊢
    obtain ⟨⟨serving, reader, hs'⟩, hwork, hleft, hcloses⟩ := moves_of_after hat hafter rfl rfl
    -- The request stays with the thread that is to close it.
    have hclosing : ∀ path ∈ g.requests, s.Closing path → s'.Closing path := by
      intro path hpath hclosing
      refine hcloses path hclosing ?_
      rintro _ _ _ hst hclosed
      cases hst
      exact hclean.written rfl path hclosed hpath
    subst hs'
    exact hinv.same ⟨rfl, rfl, rfl, fun _ => id, fun _ _ => Or.inl, rfl, rfl, hwork, Nat.le_succ _,
      fun n => Or.inl, hclosing, hleft⟩
  · rename_i hsent
    have hsent : ch.sent = true := by simpa using hsent
    have hcan' : s.serial < 2 ^ 32 ∧ s.shut = false := by simpa [Client.canSend, hsent] using hcan
    have hshut := hcan'.2
    rw [hsent] at hclean
    rw [if_pos hsent]
    -- The open request that this call closes is its own to close.
    have hclosed := hinv.closes hclean
    -- The pending call is on the books before the thread moves on.
    obtain ⟨pending, log, rfl, rfl, hpending⟩ : ∃ pending log, o = .over ∧
        r = { s with serial := s.serial + 1, pending := pending, log := log } ∧
        ((∃ p, pending = (s.serial, p) :: s.pending ∧ p.opens = c.opensUri ∧
          p.file.isSome = file.isSome) ∨ (pending = s.pending ∧ c.opensUri = false)) := by
      split at h
      · cases h
        exact ⟨_, _, rfl, rfl, Or.inl ⟨_, rfl, rfl, rfl⟩⟩
      · rename_i hexpects
        cases h
        refine ⟨_, _, rfl, rfl, Or.inr ⟨rfl, ?_⟩⟩
        cases hopens : c.opensUri with
        | false => rfl
        | true => exact absurd (hclean.expects rfl hopens) hexpects
    -- The call is on the books, and awaited.
    have hwritten := hclosed.await hshut
      (w := { serial := s.serial, opens := c.opensUri, file := file.isSome, ended := [] }) rfl hpending
    have hthere : Client.At { s with serial := s.serial + 1, pending := pending } t c
        (.send identified file out) := by
      cases t <;> exact hat
    obtain ⟨⟨serving, reader, hs'⟩, hwork, hleft, hcloses⟩ := moves_of_after hthere hafter rfl rfl
    have hclosing : ∀ path ∈ (g.endIfAny ((closedBy c out).map .closed)).requests,
        Client.Closing { s with serial := s.serial + 1, pending := pending } path →
        s'.Closing path := by
      intro path hpath hclosing
      refine hcloses path hclosing ?_
      rintro _ _ _ hst hclose
      cases hst
      rw [hclose] at hpath
      exact not_mem_of_closed hpath
    subst hs'
    exact hwritten.same ⟨rfl, rfl, rfl, fun _ => id, fun _ _ => Or.inl, rfl, rfl, hwork, Nat.le_refl _,
      fun n => Or.inl, hclosing, hleft⟩

/-- A step of `forward`, by whatever thread has the call. -/
theorem tracked_forward {ch : Choice} {o : Outcome} (hinv : Tracked s g) (hat : s.At t c st)
    (h : forwardStep cfg s t.fromHeld c st ch = some (r, o)) (hafter : r.after t c o = some s')
    (hclean : ∀ o, st.sending c = some o → SendsCleanly s g o ch.sent) :
    Tracked s' (match st.sending c with
      | some o => if ch.sent then g.send s.serial o.call o.file o.out else g
      | none => g) := by
  cases st with
  | unlist identified file out => exact hinv.same (same_of_unlist hat h hafter)
  | send identified file out => exact tracked_send hinv hat h hafter (hclean _ rfl)
  | _ => exact hinv.same (same_of_early hat rfl h hafter)

/-! ## Section 8: A Message Is Read -/

/-- The reading thread has no call to pass on. -/
theorem closing_of_reader {path : String} (h : s.Closing path)
    (hreader : ∀ c st rest, s.reader ≠ .passing c st rest) (hserving : s'.serving = s.serving) :
    s'.Closing path := by
  obtain ⟨t, c, identified, file, out, hat, hclosed⟩ := h
  refine ⟨t, c, identified, file, out, ?_, hclosed⟩
  cases t with
  | serving via => exact (congrFun hserving via).trans hat
  | reader rest => exact absurd hat (hreader _ _ _)

/-- The reading thread goes on with the same work for the books. -/
theorem same_of_reader {reader : Reader} {portal : PortalState} {log : List Event} {serial : Nat}
    (hreader : ∀ c st rest, s.reader ≠ .passing c st rest) (hwork : reader.work = s.reader.work)
    (hserial : s.serial ≤ serial)
    (hregistering : ∀ n, portal.registering = some n → s.portal.registering = some n) :
    SameBooks s { s with serial := serial, portal := portal, reader := reader, log := log } g :=
  ⟨rfl, rfl, rfl, fun _ => id, fun _ _ => Or.inl, rfl, rfl, hwork, hserial,
    fun n hn => Or.inl (hregistering n hn),
    fun _ _ hclosing => closing_of_reader hclosing hreader rfl, fun _ => id⟩

theorem work_recv (hrecv : s.reader = .recv) : s.reader.work = .idle := by
  rw [hrecv]
  rfl

/-- What the gateway takes for a response is one. -/
theorem responseOf_of_responsePath {m : Message} {path : String} (h : responsePath s m = some path) :
    responseOf m = some { path := path, holder := m.sender } := by
  unfold responsePath at h
  split at h
  · rename_i hall
    rw [responseOf, if_pos ⟨hall.1, hall.2.1, hall.2.2.2.2⟩, h]
    rfl
  · cases h

/-- What the host has open after a message that is no reply. -/
structure AfterNotice (s : Client) (m : Message) (g g' : Hosted) : Prop where
  fewer : g.Fewer g'
  requests : ∀ path ∈ g.requests, path ∈ g'.requests ∨ responsePath s m = some path ∨ portalChanged m
  files : ∀ path ∈ g.files, path ∈ g'.files ∨ responsePath s m = some path
  portal : portalChanged m → g'.requests = []
  done : ∀ path, responsePath s m = some path → path ∉ g'.requests
  outstanding : g'.outstanding = g.outstanding ∨ (responsePath s m).isSome ∨ portalChanged m

/-- A response from the holder of a request, which the gateway heeds. -/
theorem afterNotice_response {m : Message} {r : HostRequest} (hheeds : Heeds s g m)
    (hresponse : responseOf m = some r) (hpath : responsePath s m = some r.path)
    (hportal : portalChanged m = false) : AfterNotice s m g (g.endBy (.responded r)) := by
  -- The response is of one request, and of the requests at its path there is no other.
  have honly : ∀ there ∈ g.opened ++ g.filed, there ≠ r → there.path ≠ r.path := by
    intro there hthere hne hsame
    have hsome := (hheeds there hthere).mp (hsame ▸ hpath)
    exact hne (Option.some.inj (hsome.symm.trans hresponse))
  have hends : ∀ {there : HostRequest}, there ≠ r → (RequestEnd.responded r).ends there = false := by
    intro there hne
    simpa [RequestEnd.ends] using hne
  refine {
    fewer := Hosted.fewer_endBy g _, requests := ?requests, files := ?files, portal := ?portal,
    done := ?done, outstanding := ?outstanding }
  case requests =>
    intro path hin
    obtain ⟨there, hthere, rfl⟩ := Hosted.mem_requests.mp hin
    by_cases heq : there = r
    · exact Or.inr (Or.inl (heq ▸ hpath))
    · exact Or.inl (Hosted.mem_requests.mpr ⟨there, Hosted.mem_opened_endBy.mpr ⟨hthere, hends heq⟩, rfl⟩)
  case files =>
    intro path hin
    obtain ⟨there, hthere, rfl⟩ := Hosted.mem_files.mp hin
    by_cases heq : there = r
    · exact Or.inr (heq ▸ hpath)
    · exact Or.inl (Hosted.mem_files.mpr ⟨there, Hosted.mem_filed_endBy.mpr ⟨hthere, hends heq⟩, rfl⟩)
  case portal =>
    intro hchanged
    cases hportal.symm.trans hchanged
  case done =>
    intro path hsome hin
    cases hpath.symm.trans hsome
    obtain ⟨there, hthere, hsame⟩ := Hosted.mem_requests.mp hin
    obtain ⟨hthere, hnot⟩ := Hosted.mem_opened_endBy.mp hthere
    refine honly there (List.mem_append_left _ hthere) ?_ hsame
    rintro rfl
    simp [RequestEnd.ends] at hnot
  case outstanding =>
    exact Or.inr (Or.inl (by rw [hpath]; rfl))

/-- What the gateway does not heed ends no open request. -/
theorem afterNotice_unheeded {m : Message} {r : HostRequest} (hheeds : Heeds s g m)
    (hresponse : responseOf m = some r) (hpath : responsePath s m = none)
    (hportal : portalChanged m = false) : AfterNotice s m g (g.endBy (.responded r)) := by
  have hnot : r ∉ g.opened ++ g.filed := by
    intro hin
    cases hpath.symm.trans ((hheeds r hin).mpr hresponse)
  have hnow := Hosted.endBy_responded (g := g) (fun hin => hnot (List.mem_append_left _ hin))
    (fun hin => hnot (List.mem_append_right _ hin))
  refine ⟨Hosted.fewer_endBy g _, ?_, ?_, ?_, ?_, Or.inl ?_⟩
  · intro path hin
    rw [hnow]
    exact Or.inl hin
  · intro path hin
    rw [hnow]
    exact Or.inl hin
  · intro hchanged
    cases hportal.symm.trans hchanged
  · intro path hsome
    cases hpath.symm.trans hsome
  · rw [hnow]
    simp [Hosted.outstanding, List.any_map, Function.comp_def]

theorem afterNotice (m : Message) (hheeds : Heeds s g m) :
    AfterNotice s m g (if portalChanged m then { g with opened := [] }
      else g.endIfAny ((responseOf m).map .responded)) := by
  -- The notice may be of the portal's end, which ends every open request.
  cases hportal : portalChanged m with
  | true =>
      rw [if_pos rfl]
      refine {
        fewer := { Hosted.Fewer.refl g with requests := fun _ hin => by cases hin },
        requests := ?requests, files := ?files, portal := ?portal, done := ?done,
        outstanding := ?outstanding }
      case requests =>
        exact fun _ _ => Or.inr (Or.inr hportal)
      case files =>
        exact fun _ hpath => Or.inl hpath
      case portal =>
        exact fun _ => rfl
      case done =>
        exact fun _ _ hin => by cases hin
      case outstanding =>
        exact Or.inr (Or.inr hportal)
  | false =>
      rw [if_neg (by simp)]
      cases hresponse : responseOf m with
      | none =>
          have hpath : ∀ path, responsePath s m ≠ some path := by
            intro path hsome
            cases hresponse.symm.trans (responseOf_of_responsePath hsome)
          refine {
            fewer := Hosted.Fewer.refl g, requests := ?requests, files := ?files, portal := ?portal,
            done := ?done, outstanding := Or.inl rfl }
          case requests =>
            exact fun _ hin => Or.inl hin
          case files =>
            exact fun _ hin => Or.inl hin
          case portal =>
            intro hchanged
            cases hportal.symm.trans hchanged
          case done =>
            exact fun path hsome => absurd hsome (hpath path)
      | some r =>
          cases hpath : responsePath s m with
          | none => exact afterNotice_unheeded hheeds hresponse hpath hportal
          | some path =>
              have hsame := responseOf_of_responsePath hpath
              rw [hresponse] at hsame
              cases hsame
              exact afterNotice_response hheeds hresponse hpath hportal

/-- A message that is no reply is read, and ends what it ends. -/
theorem Tracked.notice (h : Tracked s g) (hrecv : s.reader = .recv) {m : Message} {fds : List Fd}
    (hreply : isReply m = false) {log : List Event} {g' : Hosted} (hnow : AfterNotice s m g g') :
    Tracked { s with log := log, reader := .received m fds } g' := by
  have hidle := work_recv hrecv
  have hwork : (Reader.received m fds).work = .noticed m := by
    simp [Reader.work, hreply]
  obtain ⟨hfewer, hrequests, hfiles, hportal, hover, hsame⟩ := hnow
  constructor
  case toNumbered =>
    exact h.toNumbered.fewer hfewer
  case awaited =>
    intro n p hp
    rcases h.awaited n p hp with ⟨w, hw, hserial, hopens, hfile⟩ | ⟨m, hm, _⟩
    · obtain ⟨w', hw', hserial', hopens', hfile'⟩ := hfewer.awaited w hw
      exact Or.inl ⟨w', hw', hserial'.trans hserial, hopens'.trans hopens, hfile'.trans hfile⟩
    · rw [hidle] at hm
      cases hm
  case inHand =>
    intro m' n hm
    cases hwork.symm.trans hm
  case matched =>
    intro m' n p hm
    cases hwork.symm.trans hm
  case listed =>
    intro path hpath
    rcases h.listed path (hfewer.requests path hpath) with hlisted | hclosing | ⟨m', _, _, hm, _⟩
    · exact Or.inl hlisted
    · exact Or.inr (Or.inl (closing_of_reader hclosing (by simp [hrecv]) rfl))
    · rw [hidle] at hm
      cases hm
  case open_ =>
    intro path hpath
    rcases h.open_ path hpath with hopen | hend | ⟨m', hm | hm, _⟩ | ⟨m', hm, _⟩
    -- It is open still, or the message in hand is what ends it.
    · rcases hrequests path hopen with hopen | hresponse | hchanged
      · exact Or.inl hopen
      · exact Or.inr (Or.inr (Or.inl ⟨m, Or.inl hwork, hresponse⟩))
      · exact Or.inr (Or.inr (Or.inr ⟨m, hwork, hchanged⟩))
    · cases hidle.symm.trans hend
    all_goals cases hidle.symm.trans hm
  case filed =>
    intro e he
    rcases h.filed e he with hopen | ⟨m', hm | hm, _⟩ | ⟨m', hm, _⟩
    · rcases hfiles e.1 hopen with hopen | hresponse
      · exact Or.inl hopen
      · exact Or.inr (Or.inl ⟨m, Or.inl hwork, hresponse⟩)
    all_goals cases hidle.symm.trans hm
  case ending =>
    rintro (hend | ⟨m', hm, hchanged⟩)
    · cases hwork.symm.trans hend
    · cases hwork.symm.trans hm
      exact hportal hchanged
  case signalled =>
    intro m' hm
    cases hwork.symm.trans hm
  case past =>
    rintro m' path (hm | hm) hresponse
    · cases hwork.symm.trans hm
      exact hover path hresponse
    · cases hwork.symm.trans hm
  case early =>
    intro hshut
    exact hfewer.outstanding (h.early hshut)
  case due =>
    intro hgone hnone
    rcases hsame with hsame | hends
    · rcases h.due hgone (hsame ▸ hnone) with hshut | hleft | hdue
      · exact Or.inl hshut
      · exact Or.inr (Or.inl hleft)
      · rw [hidle] at hdue
        exact hdue.elim
    -- What ended was the last that the host had to answer, and the message in hand is about it.
    · refine Or.inr (Or.inr ?_)
      show (Reader.received m fds).work.Due _
      rw [hwork]
      exact hends

/-- What the host has open after the reply `m`. -/
structure AfterReply (m : Message) (g g' : Hosted) : Prop where
  calls : g'.awaited.Sublist g.awaited
  answered : ∀ w ∈ g'.awaited, w.opens → serialOf m ≠ some w.serial
  others : ∀ w ∈ g.awaited, serialOf m ≠ some w.serial → w ∈ g'.awaited
  requests : ∀ path ∈ g.requests, path ∈ g'.requests
  files : ∀ path ∈ g.files, path ∈ g'.files
  opened : ∀ path ∈ g'.requests, path ∈ g.requests ∨
    ∃ w ∈ g.awaited, w.opens ∧ serialOf m = some w.serial ∧ handleOf m = some path
  handle : ∀ w ∈ g.awaited, serialOf m = some w.serial → ∀ path, handleOf m = some path →
    (w.opens → path ∈ g'.requests) ∧ (w.file → path ∈ g'.files)

/-- A reply to a call that the host has not answered. -/
theorem Tracked.matching (h : Tracked s g) (hrecv : s.reader = .recv) {m : Message} {r' : Reader}
    {log : List Event} {g' : Hosted} (hwork : r'.work = .matching m)
    (hsent : ∀ n, serialOf m = some n → n < s.serial) (hanswers : AfterReply m g g') :
    Tracked { s with log := log, reader := r' } g' := by
  have hidle := work_recv hrecv
  -- The reply only takes from what is awaited.
  have hmem : ∀ w ∈ g'.awaited, w ∈ g.awaited := fun w hw => hanswers.calls.subset hw
  have hpending : ∀ n p, (n, p) ∈ s.pending →
      ∃ w ∈ g.awaited, w.serial = n ∧ w.opens = p.opens ∧ w.file = p.file.isSome := by
    intro n p hp
    rcases h.awaited n p hp with hw | ⟨m', hm, _⟩
    · exact hw
    · cases hidle.symm.trans hm
  constructor
  case toNumbered =>
    refine {
      serials := ?serials, unique := ?unique, below := h.below, keys := h.keys,
      registering := ?registering, pending := ?pending }
    case serials =>
      intro w hw
      exact h.serials w (hmem w hw)
    case unique =>
      exact (hanswers.calls.map _).nodup h.unique
    case registering =>
      intro n hn
      obtain ⟨hlt, hnone, hcalls⟩ := h.registering n hn
      exact ⟨hlt, hnone, fun w hw => hcalls w (hmem w hw)⟩
    case pending =>
      intro w hw
      exact h.pending w (hmem w hw)
  case awaited =>
    intro n p hp
    -- The reply is to this call, or to another.
    by_cases hn : serialOf m = some n
    · exact Or.inr ⟨m, hwork, hn⟩
    · obtain ⟨w, hw, rfl, hrest⟩ := hpending n p hp
      exact Or.inl ⟨w, hanswers.others w hw hn, rfl, hrest⟩
  case inHand =>
    intro m' n hm hn
    cases hwork.symm.trans hm
    exact hsent n hn
  case matched =>
    intro m' n p hm hn hp
    cases hwork.symm.trans hm
    obtain ⟨w, hw, rfl, hopens, hfile⟩ := hpending n p hp
    refine ⟨?_, ?_⟩
    · rintro w' hw' hopens' hserial
      exact hanswers.answered w' hw' hopens' (hserial ▸ hn)
    · intro path hpath
      obtain ⟨hrequest, hfiled⟩ := hanswers.handle w hw hn path hpath
      exact ⟨fun ho => hrequest (hopens.trans ho), fun hk => hfiled (hfile.trans hk)⟩
  case listed =>
    intro path hpath
    -- The request was open before, or the reply opened it.
    rcases hanswers.opened path hpath with hold | ⟨w, hw, hopens, hserial, hhandle⟩
    · rcases h.listed path hold with hlisted | hclosing | ⟨m', _, _, hm, _⟩
      · exact Or.inl hlisted
      · exact Or.inr (Or.inl (closing_of_reader hclosing (by simp [hrecv]) rfl))
      · cases hidle.symm.trans hm
    · obtain ⟨p, hp, ho⟩ := h.pending w hw hopens
      exact Or.inr (Or.inr ⟨m, w.serial, p, hwork, hserial, hp, ho, hhandle⟩)
  case open_ =>
    intro path hpath
    rcases h.open_ path hpath with hopen | hend | ⟨m', hm | hm, _⟩ | ⟨m', hm, _⟩
    · exact Or.inl (hanswers.requests path hopen)
    · cases hidle.symm.trans hend
    all_goals cases hidle.symm.trans hm
  case filed =>
    intro e he
    rcases h.filed e he with hopen | ⟨m', hm | hm, _⟩ | ⟨m', hm, _⟩
    · exact Or.inl (hanswers.files e.1 hopen)
    all_goals cases hidle.symm.trans hm
  case ending =>
    rintro (hend | ⟨m', hm, _⟩)
    · cases hwork.symm.trans hend
    · cases hwork.symm.trans hm
  case signalled =>
    intro m' hm
    cases hwork.symm.trans hm
  case past =>
    rintro m' path (hm | hm) _
    all_goals cases hwork.symm.trans hm
  case early =>
    intro hshut
    obtain ⟨hcalls, hrequests⟩ := Hosted.outstanding_eq_false.mp (h.early hshut)
    refine Hosted.outstanding_eq_false.mpr ⟨fun w hw => hcalls w (hmem w hw), ?_⟩
    refine List.eq_nil_iff_forall_not_mem.mpr ?_
    intro path hpath
    -- With nothing outstanding there is no such request, and no call to open one.
    rcases hanswers.opened path hpath with hold | ⟨w, hw, hopens, _⟩
    · rw [hrequests] at hold
      cases hold
    · rw [hcalls w hw] at hopens
      cases hopens
  case due =>
    intro hgone hnone
    obtain ⟨hcalls, hrequests⟩ := Hosted.outstanding_eq_false.mp hnone
    -- The reply was the last thing awaited, or there was nothing.
    by_cases hlast : ∃ w ∈ g.awaited, w.opens ∧ serialOf m = some w.serial
    · obtain ⟨w, hw, hopens, hserial⟩ := hlast
      obtain ⟨p, hp, ho⟩ := h.pending w hw hopens
      refine Or.inr (Or.inr ?_)
      show r'.work.Due _
      rw [hwork]
      exact ⟨w.serial, p, hserial, hp, ho⟩
    · have hbefore : g.outstanding = false := by
        refine Hosted.outstanding_eq_false.mpr ⟨?_, ?_⟩
        · intro w hw
          cases hopens : w.opens with
          | false => rfl
          | true =>
              have hother : serialOf m ≠ some w.serial := fun hn => hlast ⟨w, hw, hopens, hn⟩
              rw [hcalls w (hanswers.others w hw hother)] at hopens
              cases hopens
        · refine List.eq_nil_iff_forall_not_mem.mpr ?_
          intro path hpath
          have hin := hanswers.requests path hpath
          rw [hrequests] at hin
          cases hin
      rcases h.due hgone hbefore with hshut | hleft | hdue
      · exact Or.inl hshut
      · exact Or.inr (Or.inl hleft)
      · rw [hidle] at hdue
        exact hdue.elim

/-- The reply to a call ends it. -/
theorem afterReply_answer {m : Message} {n : Nat} (hunique : (g.awaited.map Awaited.serial).Nodup)
    (hn : serialOf m = some n)
    (hfirst : ∀ r, namedBy m = some r → ∀ w ∈ g.awaited, serialOf m = some w.serial →
      (w.opens ∨ w.file) → ∀ e ∈ w.ended, e.ends r = false) :
    AfterReply m g (g.answer n (namedBy m)) := by
  unfold Hosted.answer
  -- The reply is to a call on the books, or to none.
  cases hfind : g.awaited.find? (·.serial == n) with
  | none =>
      have hnone : ∀ w ∈ g.awaited, serialOf m ≠ some w.serial := by
        intro w hw hserial
        have hne := List.find?_eq_none.mp hfind w hw
        simp [← Option.some.inj (hn.symm.trans hserial)] at hne
      exact ⟨List.Sublist.refl _, fun w hw _ => hnone w hw, fun w hw _ => hw, fun _ => id, fun _ => id,
        fun _ => Or.inl, fun w hw hserial => absurd hserial (hnone w hw)⟩
  | some w =>
      have hw : w ∈ g.awaited := List.mem_of_find?_eq_some hfind
      have hserial : w.serial = n := by simpa using List.find?_some hfind
      have hsame : ∀ w' ∈ g.awaited, serialOf m = some w'.serial → w' = w := by
        intro w' hw' hserial'
        refine List.inj_on_of_nodup_map hunique hw' hw ?_
        rw [hserial]
        exact (Option.some.inj (hn.symm.trans hserial')).symm
      constructor
      case calls =>
        exact List.filter_sublist
      case answered =>
        intro w' hw' _ hserial'
        have hne : w'.serial ≠ n := by simpa using (List.mem_filter.mp hw').2
        exact hne (Option.some.inj (hn.symm.trans hserial')).symm
      case others =>
        intro w' hw' hother
        refine List.mem_filter.mpr ⟨hw', ?_⟩
        simp only [decide_eq_true_eq]
        rintro rfl
        exact hother hn
      case requests =>
        intro path hpath
        obtain ⟨r, hr, hrpath⟩ := Hosted.mem_requests.mp hpath
        refine Hosted.mem_requests.mpr ⟨r, ?_, hrpath⟩
        show r ∈ if w.opens then _ else _
        split
        · exact List.mem_append_right _ hr
        · exact hr
      case files =>
        intro path hpath
        obtain ⟨r, hr, hrpath⟩ := Hosted.mem_files.mp hpath
        refine Hosted.mem_files.mpr ⟨r, ?_, hrpath⟩
        show r ∈ if w.file then _ else _
        split
        · exact List.mem_append_right _ hr
        · exact hr
      case opened =>
        intro path hpath
        obtain ⟨r, hr, rfl⟩ := Hosted.mem_requests.mp hpath
        replace hr : r ∈ if w.opens then _ else _ := hr
        split at hr
        · rename_i hopens
          rcases List.mem_append.mp hr with hnew | hold
          · have hnamed : (namedBy m).filter (fun r => !w.ended.any (·.ends r)) = some r := by
              simpa using hnew
            obtain ⟨path, hhandle, rfl⟩ := Option.map_eq_some_iff.mp (Option.filter_eq_some_iff.mp hnamed).1
            exact Or.inr ⟨w, hw, hopens, by rw [hserial]; exact hn, hhandle⟩
          · exact Or.inl (Hosted.mem_requests.mpr ⟨r, hold, rfl⟩)
        · exact Or.inl (Hosted.mem_requests.mpr ⟨r, hr, rfl⟩)
      case handle =>
        intro w' hw' hserial' path hpath
        obtain rfl := hsame w' hw' hserial'
        have hnamed : namedBy m = some { path := path, holder := m.sender } := by
          rw [namedBy, hpath]
          rfl
        have hfresh : w'.opens ∨ w'.file → { path := path, holder := m.sender } ∈
            ((namedBy m).filter fun r => !w'.ended.any (·.ends r)).toList := by
          intro hfor
          have hover : w'.ended.any (·.ends { path := path, holder := m.sender }) = false :=
            List.any_eq_false.mpr fun e he => by simp [hfirst _ hnamed w' hw' hserial' hfor e he]
          simp [hnamed, hover]
        refine ⟨?_, ?_⟩
        · intro hopens
          refine Hosted.mem_requests.mpr ⟨{ path := path, holder := m.sender }, ?_, rfl⟩
          show _ ∈ if w'.opens then _ else _
          rw [if_pos hopens]
          exact List.mem_append_left _ (hfresh (Or.inl hopens))
        · intro hfile
          refine Hosted.mem_files.mpr ⟨{ path := path, holder := m.sender }, ?_, rfl⟩
          show _ ∈ if w'.file then _ else _
          rw [if_pos hfile]
          exact List.mem_append_left _ (hfresh (Or.inr hfile))

theorem handleOf_undecodableReply (n : UInt32) : handleOf (undecodableReply n) = none := by
  simp [handleOf, undecodableReply, Kind.error, Kind.methodReturn]

/-- What is taken for a reply changes nothing, where it has the serial of no OpenURI call. -/
theorem afterReply_self {m : Message} (hhandle : handleOf m = none)
    (hother : ∀ w ∈ g.awaited, w.opens → serialOf m ≠ some w.serial) : AfterReply m g g := by
  refine ⟨List.Sublist.refl _, hother, fun w hw _ => hw, fun _ => id, fun _ => id, fun _ => Or.inl, ?_⟩
  intro w _ _ path hpath
  rw [hhandle] at hpath
  cases hpath

theorem serial_lt_of_fromHostBus {m : Message} {n : Nat} (h : fromHostBus s m) (hreply : isReply m)
    (hn : serialOf m = some n) : n < s.serial := by
  simp only [fromHostBus, hreply, hn, Bool.and_eq_true] at h
  simpa using h.2

/-- A response to no request that is open is read, and the requests stay as they are. -/
theorem Tracked.disregard (h : Tracked s g) {m : Message}
    (hnot : ∀ r ∈ g.opened ++ g.filed, responseOf m ≠ some r) :
    Tracked s (g.endIfAny ((responseOf m).map .responded)) := by
  cases hresponse : responseOf m with
  | none => exact h
  | some r =>
      have hnow := Hosted.endBy_responded (g := g) (r := r)
        (fun hin => hnot r (List.mem_append_left _ hin) hresponse)
        (fun hin => hnot r (List.mem_append_right _ hin) hresponse)
      refine h.ended ?_ ?_ ?_ ?_
      all_goals rw [hnow]
      · exact fun _ _ => id
      · exact fun _ _ => id
      · exact fun _ _ => ⟨id, id⟩
      · intro _ hout
        simpa [Hosted.outstanding, List.any_map, Function.comp_def] using hout

/-- A message that cannot be decoded and is no reply. -/
theorem tracked_undecodable {u : Undecodable} {reader : Reader} {log : List Event}
    (hinv : Tracked s g) (hrecv : s.reader = .recv)
    (hresponse : ∀ r ∈ g.opened ++ g.filed, responseOf u.message ≠ some r)
    (hother : ∀ n, serialOf u.message = some n → n < s.serial ∧ ∀ w ∈ g.awaited, w.opens → w.serial ≠ n)
    (hnow : (reader.work = .idle ∧ serialOf u.message = none) ∨
      ∃ n : UInt32, serialOf u.message = some n.toNat ∧ reader.work = .matching (undecodableReply n)) :
    Tracked { s with log := log, reader := reader }
      (g.endIfAny ((responseOf u.message).map .responded)) := by
  have hdisregard := hinv.disregard hresponse
  rcases hnow with ⟨hidle, _⟩ | ⟨n, hn, hwork⟩
  · exact hdisregard.same (same_of_reader (by simp [hrecv]) (hidle.trans (work_recv hrecv).symm)
      (Nat.le_refl _) fun _ => id)
  · obtain ⟨hlt, hcalls⟩ := hother _ hn
    have hserial : serialOf (undecodableReply n) = some n.toNat := rfl
    refine hdisregard.matching hrecv hwork ?_ (afterReply_self (handleOf_undecodableReply n) ?_)
    · intro n' hn'
      cases hserial.symm.trans hn'
      exact hlt
    · intro w hw hopens hn'
      obtain ⟨w', hw', hserial', hopens', _⟩ := (Hosted.fewer_endIfAny g _).calls w hw
      refine hcalls w' hw' (hopens'.symm.trans hopens) ?_
      rw [← hserial']
      exact Option.some.inj (hn'.symm.trans hserial)

theorem tracked_receive {a : Arrival} (hinv : Tracked s g) (h : receiveStep s a = some s')
    (hclean : ReadsCleanly s g a) : Tracked s' (g.receive a) := by
  unfold receiveStep at h
  split at h
  case h_2 => cases h
  rename_i hrecv
  split at h
  · cases h
  rename_i hbus
  have hbus : fromHostBus s a.header := by simpa using hbus
  -- A message, or one that could not be decoded.
  cases a with
  | message m fds =>
      obtain ⟨hheeds, hfirst⟩ := hclean
      cases h
      cases hreply : isReply m with
      | false =>
          have hnow : g.receive (.message m fds) = if portalChanged m then { g with opened := [] }
              else g.endIfAny ((responseOf m).map .responded) :=
            if_neg (by simp [Arrival.header, hreply])
          rw [hnow]
          exact hinv.notice hrecv hreply (afterNotice m hheeds)
      | true =>
          have hwork : (Reader.received m fds).work = .matching m := by
            simp [Reader.work, hreply]
          refine hinv.matching hrecv hwork (fun n => serial_lt_of_fromHostBus hbus hreply) ?_
          cases hn : serialOf m with
          | none =>
              have hnow : g.receive (.message m fds) = g := by
                simp [Hosted.receive, Arrival.header, hreply, hn]
              rw [hnow]
              exact ⟨List.Sublist.refl _, by simp [hn], fun w hw _ => hw, fun _ => id, fun _ => id,
                fun _ => Or.inl, by simp [hn]⟩
          | some n =>
              have hnow : g.receive (.message m fds) = g.answer n (namedBy m) := by
                simp [Hosted.receive, Arrival.header, hreply, hn]
              rw [hnow]
              exact afterReply_answer hinv.unique hn fun r hr w hw => hfirst r hreply hr w hw
  | undecodable u =>
      obtain ⟨hresponse, hreturn, hother⟩ := hclean
      simp only at h
      cases hreply : isReply u.message with
      | false =>
          have hnow : g.receive (.undecodable u) =
              g.endIfAny ((responseOf u.message).map .responded) :=
            if_neg (by simp [Arrival.header, hreply])
          rw [hnow]
          cases hserial : u.message.replySerial with
          | none =>
              rw [hserial] at h
              cases h
              exact tracked_undecodable (s := s) hinv hrecv hresponse (hother hreply)
                (Or.inl ⟨rfl, by simp [serialOf, hserial]⟩)
          | some n =>
              rw [hserial] at h
              cases h
              exact tracked_undecodable (s := s) hinv hrecv hresponse (hother hreply)
                (Or.inr ⟨n, by simp [serialOf, hserial], rfl⟩)
      | true =>
          cases hserial : u.message.replySerial with
          | none =>
              have hn : serialOf u.message = none := by simp [serialOf, hserial]
              have hnow : g.receive (.undecodable u) = g := by
                simp [Hosted.receive, Arrival.header, hreply, hn]
              rw [hserial] at h
              cases h
              rw [hnow]
              exact hinv.same (same_of_reader (by simp [hrecv]) (work_recv hrecv).symm (Nat.le_refl _)
                fun _ => id)
          | some n =>
              have hn : serialOf u.message = some n.toNat := by simp [serialOf, hserial]
              have hundecodable : serialOf (undecodableReply n) = some n.toNat := rfl
              -- The return of a call that opens nothing may be lost, and so may any error.
              have hnot : ¬(u.message.kind = Kind.methodReturn ∧
                  g.awaited.any (fun w => w.serial == n.toNat && w.opens) = true) := by
                rintro ⟨hkind, hany⟩
                obtain ⟨w, hw, hthis⟩ := List.any_eq_true.mp hany
                simp only [Bool.and_eq_true, beq_iff_eq] at hthis
                exact hreturn hkind w hw hthis.2 (hthis.1 ▸ hn)
              have hnow : g.receive (.undecodable u) =
                  g.answer n.toNat (namedBy (undecodableReply n)) := by
                rw [namedBy, handleOf_undecodableReply]
                unfold Hosted.receive
                rw [if_pos (show isReply (Arrival.undecodable u).header from hreply)]
                simp only [Arrival.header, hn]
                rw [if_neg hnot]
                rfl
              rw [hserial] at h
              cases h
              rw [hnow]
              refine hinv.matching hrecv rfl ?_ (afterReply_answer hinv.unique hundecodable ?_)
              · intro n' hn'
                cases hundecodable.symm.trans hn'
                exact serial_lt_of_fromHostBus hbus hreply hn
              · intro r hr
                rw [namedBy, handleOf_undecodableReply] at hr
                cases hr

/-! ## Section 9: What Was Read Is Handled -/

/-- The work ends requests. -/
def Work.ends : Work → Bool
  | .noticed _ | .signalled _ | .ending => true
  | _ => false

theorem Tracked.open_of_ends (h : Tracked s g) (hends : s.reader.work.ends = false) :
    ∀ path ∈ s.openRequests, path ∈ g.requests := by
  intro path hpath
  rcases h.open_ path hpath with hopen | hend | ⟨m, hm | hm, _⟩ | ⟨m, hm, _⟩
  · exact hopen
  · rw [hend] at hends
    cases hends
  all_goals
    rw [hm] at hends
    cases hends

theorem Tracked.filed_of_ends (h : Tracked s g) (hends : s.reader.work.ends = false) :
    ∀ e ∈ s.fileRequests, e.1 ∈ g.files ∨ ∃ m, s.reader.work = .delivering m ∧
      m.isMember "org.freedesktop.portal.Request" "Response" ∧ m.path = some e.1 := by
  intro e he
  rcases h.filed e he with hopen | ⟨m, hm | hm, _⟩ | hdeliver
  · exact Or.inl hopen
  · rw [hm] at hends
    cases hends
  · rw [hm] at hends
    cases hends
  · exact Or.inr hdeliver

/-- The reading thread has done its work, or goes on to work that does not end requests. -/
structure Turns (s s' : Client) (g : Hosted) : Prop where
  gone : s'.gone = s.gone
  shut : s'.shut = s.shut
  pending : s'.pending = s.pending
  serving : s'.serving = s.serving
  serial : s.serial ≤ s'.serial
  registering : s'.portal.registering = s.portal.registering
  reader : ∀ c st rest, s.reader ≠ .passing c st rest
  matched : ∀ m n p, s.reader.work = .matching m → serialOf m = some n → (n, p) ∉ s.pending
  matching : ∀ m, s'.reader.work ≠ .matching m
  ends : s'.reader.work.ends = false
  listed : ∀ path ∈ g.requests, path ∈ s.openRequests → path ∈ s'.openRequests
  open_ : ∀ path ∈ s'.openRequests, path ∈ g.requests
  filed : ∀ e ∈ s'.fileRequests, e.1 ∈ g.files ∨ ∃ m, s'.reader.work = .delivering m ∧
    m.isMember "org.freedesktop.portal.Request" "Response" ∧ m.path = some e.1
  due : s.gone → g.outstanding = false → s.reader.work.Due s → s.shut ∨ s'.reader.work.Due s'

theorem Tracked.turn (h : Tracked s g) (hs : Turns s s' g) : Tracked s' g := by
  -- The reading thread is past what it had in hand.
  have hnot : ∀ w, w.ends = true → s'.reader.work ≠ w := by
    rintro w hw rfl
    rw [hs.ends] at hw
    cases hw
  constructor
  case toNumbered =>
    refine {
      serials := ?serials, unique := h.unique, below := ?below, keys := hs.pending ▸ h.keys,
      registering := ?registering, pending := hs.pending ▸ h.pending }
    case serials =>
      intro w hw
      exact Nat.lt_of_lt_of_le (h.serials w hw) hs.serial
    case below =>
      rw [hs.pending]
      intro e he
      exact Nat.lt_of_lt_of_le (h.below e he) hs.serial
    case registering =>
      rw [hs.pending, hs.registering]
      intro n hn
      obtain ⟨hlt, hrest⟩ := h.registering n hn
      exact ⟨Nat.lt_of_lt_of_le hlt hs.serial, hrest⟩
  case awaited =>
    rw [hs.pending]
    intro n p hp
    -- The call that was matched is gone.
    rcases h.awaited n p hp with hcall | ⟨m, hm, hn⟩
    · exact Or.inl hcall
    · exact absurd hp (hs.matched m n p hm hn)
  case inHand =>
    intro m n hm
    exact absurd hm (hs.matching m)
  case matched =>
    intro m n p hm
    exact absurd hm (hs.matching m)
  case listed =>
    intro path hpath
    -- What was matched is listed by now.
    rcases h.listed path hpath with hlisted | hclosing | ⟨m, n, p, hm, hn, hp, _⟩
    · exact Or.inl (hs.listed path hpath hlisted)
    · exact Or.inr (Or.inl (closing_of_reader hclosing hs.reader hs.serving))
    · exact absurd hp (hs.matched m n p hm hn)
  case open_ =>
    intro path hpath
    exact Or.inl (hs.open_ path hpath)
  case filed =>
    intro e he
    exact (hs.filed e he).imp_right Or.inr
  case ending =>
    rintro (hend | ⟨m, hm, _⟩)
    · exact absurd hend (hnot _ rfl)
    · exact absurd hm (hnot _ rfl)
  case signalled =>
    intro m hm
    exact absurd hm (hnot _ rfl)
  case past =>
    rintro m path (hm | hm) _
    · exact absurd hm (hnot _ rfl)
    · exact absurd hm (hnot _ rfl)
  case early =>
    rw [hs.shut]
    exact h.early
  case due =>
    rw [hs.gone, hs.shut, hs.serving]
    intro hgone hnone
    -- The connection is shut, or this or another thread looks later.
    rcases h.due hgone hnone with hshut | hleft | hdue
    · exact Or.inl hshut
    · exact Or.inr (Or.inl hleft)
    · exact (hs.due hgone hnone hdue).imp_right Or.inr

/-- A reply that no call waits for. -/
theorem Tracked.unmatched (h : Tracked s g) {m : Message} (hwork : s.reader.work = .matching m)
    (hreader : ∀ c st rest, s.reader ≠ .passing c st rest)
    (hnot : ∀ n p, serialOf m = some n → (n, p) ∉ s.pending) {reader : Reader}
    (hidle : reader.work = .idle) : Tracked { s with reader := reader } g := by
  have hends : s.reader.work.ends = false := by rw [hwork]; rfl
  refine h.turn ⟨rfl, rfl, rfl, rfl, Nat.le_refl _, rfl, hreader, ?_, ?_, ?_, fun _ _ => id,
    h.open_of_ends hends, ?_, ?_⟩
  · intro m' n p hm
    cases hwork.symm.trans hm
    exact hnot n p
  · intro m' hm
    cases hidle.symm.trans hm
  · exact (congrArg Work.ends hidle).trans rfl
  · intro e he
    refine (h.filed_of_ends hends e he).imp_right ?_
    rintro ⟨m', hm, _⟩
    cases hwork.symm.trans hm
  · intro _ _ hdue
    rw [hwork] at hdue
    obtain ⟨n, p, hn, hp, _⟩ := hdue
    exact absurd hp (hnot n p hn)

/-- A message that is no reply and ends no request. -/
theorem Tracked.ignored (h : Tracked s g) {m : Message}
    (hwork : s.reader.work = .noticed m ∨ s.reader.work = .signalled m)
    (hreader : ∀ c st rest, s.reader ≠ .passing c st rest) (hresponse : responsePath s m = none)
    (hportal : portalChanged m = false) {reader : Reader} {owners : List (String × String)}
    {serial : Nat} (hserial : s.serial ≤ serial) (hidle : reader.work = .idle) :
    Tracked { s with serial := serial, owners := owners, reader := reader } g := by
  have hm_eq : ∀ m', s.reader.work = .noticed m' ∨ s.reader.work = .signalled m' → m' = m := by
    rintro m' (hm | hm) <;> rcases hwork with hw | hw <;> cases hw.symm.trans hm
    all_goals rfl
  refine h.turn ⟨rfl, rfl, rfl, rfl, hserial, rfl, hreader, ?_, ?_, ?_, fun _ _ => id, ?_, ?_, ?_⟩
  · intro m' n p hm
    rcases hwork with hw | hw <;> cases hw.symm.trans hm
  · intro m' hm
    cases hidle.symm.trans hm
  · exact (congrArg Work.ends hidle).trans rfl
  · intro path hpath
    rcases h.open_ path hpath with hopen | hend | ⟨m', hm, hpath'⟩ | ⟨m', hm, hchanged⟩
    · exact hopen
    · rcases hwork with hw | hw <;> cases hw.symm.trans hend
    · rw [hm_eq m' hm, hresponse] at hpath'
      cases hpath'
    · rw [hm_eq m' (Or.inl hm), hportal] at hchanged
      cases hchanged
  · intro e he
    rcases h.filed e he with hopen | ⟨m', hm, hpath'⟩ | ⟨m', hm, _⟩
    · exact Or.inl hopen
    · rw [hm_eq m' hm, hresponse] at hpath'
      cases hpath'
    · rcases hwork with hw | hw <;> cases hw.symm.trans hm
  · intro _ _ hdue
    rcases hwork with hw | hw <;> rw [hw] at hdue <;>
      simp [Work.Due, hresponse, hportal] at hdue

/-- The portal went: the requests end with it. -/
theorem Tracked.portalGone (h : Tracked s g) {m : Message} (hwork : s.reader.work = .noticed m)
    (hchanged : portalChanged m) (hresponse : responsePath s m = none) {owners : List (String × String)} :
    Tracked { s with owners := owners, reader := .endRequests .closeIfDone } g := by
  -- With the portal its requests are gone.
  have hnone := h.ending (Or.inr ⟨m, hwork, hchanged⟩)
  have hnow : (Reader.endRequests .closeIfDone).work = .ending := rfl
  constructor
  case toNumbered =>
    exact h.toNumbered
  case awaited =>
    intro n p hp
    refine (h.awaited n p hp).imp_right ?_
    rintro ⟨m', hm, _⟩
    cases hwork.symm.trans hm
  case inHand =>
    intro m' n hm
    cases hnow.symm.trans hm
  case matched =>
    intro m' n p hm
    cases hnow.symm.trans hm
  case listed =>
    intro path hpath
    rw [hnone] at hpath
    cases hpath
  case open_ =>
    intro path _
    -- All that is recorded is told of next.
    exact Or.inr (Or.inl rfl)
  case filed =>
    intro e he
    rcases h.filed e he with hopen | ⟨m', hm | hm, hpath⟩ | ⟨m', hm, _⟩
    · exact Or.inl hopen
    · cases hwork.symm.trans hm
      cases hresponse.symm.trans hpath
    all_goals cases hwork.symm.trans hm
  case ending =>
    intro _
    exact hnone
  case signalled =>
    intro m' hm
    cases hnow.symm.trans hm
  case past =>
    rintro m' path (hm | hm) _
    all_goals cases hnow.symm.trans hm
  case early =>
    exact h.early
  case due =>
    intro hgone hout
    exact (h.due hgone hout).imp_right fun hrest => hrest.imp_right fun _ => trivial

theorem portalChanged_of_peer {m : Message} (hpeer : m.sender ≠ some busName) :
    portalChanged m = false := by
  cases hsender : m.sender == some busName with
  | false => simp [portalChanged, hsender]
  | true => exact absurd (by simpa using hsender) hpeer

/-- A signal from a peer goes on to be handled. -/
theorem Tracked.signal (h : Tracked s g) {m : Message} {fds : List Fd}
    (hwork : s.reader.work = .noticed m) (hreader : ∀ c st rest, s.reader ≠ .passing c st rest)
    (hkind : m.kind = Kind.signal) (hpeer : m.sender ≠ some busName) :
    Tracked { s with reader := .signal m fds } g := by
  have hnow : (Reader.signal m fds).work = .signalled m := rfl
  have hportal := portalChanged_of_peer hpeer
  constructor
  case toNumbered =>
    exact h.toNumbered
  -- No message is being matched while a signal is looked at.
  case awaited =>
    intro n p hp
    refine (h.awaited n p hp).imp_right ?_
    rintro ⟨m', hm, _⟩
    cases hwork.symm.trans hm
  case inHand =>
    intro m' n hm
    cases hnow.symm.trans hm
  case matched =>
    intro m' n p hm
    cases hnow.symm.trans hm
  case listed =>
    intro path hpath
    rcases h.listed path hpath with hlisted | hclosing | ⟨m', _, _, hm, _⟩
    · exact Or.inl hlisted
    · exact Or.inr (Or.inl (closing_of_reader hclosing hreader rfl))
    · cases hwork.symm.trans hm
  case open_ =>
    intro path hpath
    -- The request is open, or what ends it is in hand.
    rcases h.open_ path hpath with hopen | hend | ⟨m', hm | hm, hpath'⟩ | ⟨m', hm, hchanged⟩
    · exact Or.inl hopen
    · cases hwork.symm.trans hend
    · cases hwork.symm.trans hm
      exact Or.inr (Or.inr (Or.inl ⟨m, Or.inr hnow, hpath'⟩))
    · cases hwork.symm.trans hm
    · cases hwork.symm.trans hm
      cases hportal.symm.trans hchanged
  case filed =>
    intro e he
    rcases h.filed e he with hopen | ⟨m', hm | hm, hpath⟩ | ⟨m', hm, _⟩
    · exact Or.inl hopen
    · cases hwork.symm.trans hm
      exact Or.inr (Or.inl ⟨m, Or.inr hnow, hpath⟩)
    all_goals cases hwork.symm.trans hm
  case ending =>
    rintro (hend | ⟨m', hm, _⟩)
    · cases hnow.symm.trans hend
    · cases hnow.symm.trans hm
  case signalled =>
    intro m' hm
    cases hnow.symm.trans hm
    exact ⟨hkind, hpeer⟩
  case past =>
    rintro m' path (hm | hm) hpath
    · cases hnow.symm.trans hm
    · cases hnow.symm.trans hm
      exact h.past m path (Or.inl hwork) hpath
  case early =>
    exact h.early
  case due =>
    intro hgone hout
    -- The signal of a peer ends nothing, so what was due before is due.
    refine (h.due hgone hout).imp_right fun hrest => hrest.imp_right ?_
    intro hdue
    rw [hwork] at hdue
    exact hdue.resolve_right (by simp [hportal])

theorem tracked_dispatch {m : Message} {fds : List Fd} {ch : Choice} (hinv : Tracked s g)
    (hreader : s.reader = .received m fds) (h : dispatch s m fds ch = some s') : Tracked s' g := by
  have hpassing : ∀ c st rest, s.reader ≠ .passing c st rest := by simp [hreader]
  unfold dispatch at h
  split at h
  · rename_i hreply
    have hwork : s.reader.work = .matching m := by simp [hreader, Reader.work, hreply]
    split at h
    · -- The reply to a `Register` is no pending call's.
      rename_i hregister
      cases h
      obtain ⟨hsome, hserial⟩ : s.portal.registering.isSome ∧ serialOf m = s.portal.registering := by
        simpa using hregister
      refine hinv.unmatched hwork hpassing ?_ rfl
      intro n p hn hp
      exact (hinv.registering n (hserial.symm.trans hn)).2.1 _ hp rfl
    · cases h
      exact hinv.same (same_of_reader hpassing hwork.symm (Nat.le_refl _) fun _ => id)
  -- A signal, or a call to the gateway.
  rename_i hreply
  have hwork : s.reader.work = .noticed m := by simp [hreader, Reader.work, hreply]
  split at h
  · rename_i hkind
    split at h
    -- From the bus itself: a change of owners may end requests.
    · rename_i hsender
      have hresponse : responsePath s m = none := if_neg (fun hall => hall.2.1 hsender)
      have hquiet : portalChanged m = false → ∀ owners, Tracked (Client.setReader
          { s with owners := owners } .recv) g := by
        intro hportal owners
        exact hinv.ignored (Or.inl hwork) hpassing hresponse hportal (Nat.le_refl _) rfl
      split at h
      · rename_i args hargs
        split at h
        · rename_i hchanged
          simp only at h
          split at h
          · rename_i hname
            cases h
            refine hinv.portalGone hwork ?_ hresponse
            simp [portalChanged, hkind, hsender, hchanged, hargs, hname]
          · rename_i hname
            cases h
            exact hquiet (by simp [portalChanged, hargs, hname]) _
        · rename_i hchanged
          cases h
          exact hquiet (by simp [portalChanged, hchanged]) s.owners
      · rename_i hargs
        cases h
        exact hquiet (by simp [portalChanged, hargs]) s.owners
    -- From a peer: the next step looks at who sent it.
    · rename_i hsender
      cases h
      exact hinv.signal hwork hpassing hkind hsender
  -- A call says nothing of requests.
  · rename_i hkind
    have hresponse : responsePath s m = none := if_neg (fun hall => hkind hall.1)
    have hportal : portalChanged m = false := by
      simp [portalChanged, hkind]
    split at h
    · split at h
      · cases h
        exact hinv.ignored (Or.inl hwork) hpassing hresponse hportal (Nat.le_succ _) rfl
      · cases h
    · cases h
      exact hinv.ignored (Or.inl hwork) hpassing hresponse hportal (Nat.le_refl _) rfl

/-- The requests for files with the one that a reply names. -/
def Pending.filesWith (p : Pending) (handle : Option String) (files : List (String × FileRequest)) :
    List (String × FileRequest) :=
  match p.file, handle with
  | some kind, some handle => (handle, kind) :: files.filter fun e => e.1 != handle
  | _, _ => files

/-- The open requests with the one that a reply names. -/
def Pending.requestsWith (p : Pending) (handle : Option String) (paths : List String) : List String :=
  match p.opens, handle with
  | true, some handle => handle :: paths.filter (· ≠ handle)
  | _, _ => paths

/-- The books after a call was taken from `pending` for its reply. -/
theorem takePending_eq (fds : List Fd) {m : Message} {n : Nat} {p : Pending}
    (hn : serialOf m = some n) (hfind : s.pending.find? (fun e => e.1 == n) = some (n, p)) :
    ∃ files requests, takePending s m fds =
        { s with pending := s.pending.eraseP (fun e => e.1 == n), fileRequests := files,
                 openRequests := requests, reader := .relaying p m fds } ∧
      (∀ e ∈ files, e ∈ s.fileRequests ∨ (p.file.isSome ∧ handleOf m = some e.1)) ∧
      (∀ path ∈ requests, path ∈ s.openRequests ∨ (p.opens ∧ handleOf m = some path)) ∧
      (∀ path ∈ s.openRequests, path ∈ requests) ∧
      (p.opens → ∀ path, handleOf m = some path → path ∈ requests) := by
  have hbooks : takePending s m fds =
      { s with
        pending := s.pending.eraseP (fun e => e.1 == n)
        fileRequests := p.filesWith (handleOf m) s.fileRequests
        openRequests := p.requestsWith (handleOf m) s.openRequests
        reader := .relaying p m fds } := by
    unfold takePending Pending.filesWith Pending.requestsWith
    rw [hn]
    simp only [hfind]
    cases p.file <;> cases p.opens <;> cases handleOf m <;> rfl
  refine ⟨_, _, hbooks, ?_⟩
  unfold Pending.filesWith Pending.requestsWith
  refine ⟨?_, ?_, ?_, ?_⟩
  -- What is recorded of files was recorded, or is of the request that the reply names.
  · intro e he
    cases hfile : p.file with
    | none =>
        rw [hfile] at he
        exact Or.inl he
    | some kind =>
        cases hhandle : handleOf m with
        | none =>
            rw [hfile, hhandle] at he
            exact Or.inl he
        | some handle =>
            rw [hfile, hhandle] at he
            rcases List.mem_cons.mp he with rfl | hold
            · exact Or.inr ⟨rfl, rfl⟩
            · exact Or.inl (List.mem_of_mem_filter hold)
  -- And so for the requests of OpenURI.
  · intro path hpath
    cases hopens : p.opens with
    | false =>
        rw [hopens] at hpath
        exact Or.inl hpath
    | true =>
        cases hhandle : handleOf m with
        | none =>
            rw [hopens, hhandle] at hpath
            exact Or.inl hpath
        | some handle =>
            rw [hopens, hhandle] at hpath
            rcases List.mem_cons.mp hpath with rfl | hold
            · exact Or.inr ⟨rfl, rfl⟩
            · exact Or.inl (List.mem_of_mem_filter hold)
  -- No request is lost from the record.
  · intro path hpath
    split
    · rename_i handle _ _
      by_cases heq : path = handle
      · exact heq ▸ List.mem_cons_self
      · exact List.mem_cons_of_mem _ (by simp [hpath, heq])
    · exact hpath
  · intro hopens path hhandle
    rw [hopens, hhandle]
    exact List.mem_cons_self

/-- A call is taken from `pending` for its reply, which may name an open request. -/
theorem Tracked.taken (h : Tracked s g) {m : Message} {fds : List Fd} {n : Nat} {p : Pending}
    (hwork : s.reader.work = .matching m) (hreader : ∀ c st rest, s.reader ≠ .passing c st rest)
    (hn : serialOf m = some n) (hfind : s.pending.find? (fun e => e.1 == n) = some (n, p)) :
    Tracked (takePending s m fds) g := by
  obtain ⟨files, requests, htake, hfiles, hrequests, hkept, hlisted⟩ := takePending_eq fds hn hfind
  rw [htake]
  have hp : (n, p) ∈ s.pending := List.mem_of_find?_eq_some hfind
  obtain ⟨hcalls, hpaths⟩ := h.matched m n p hwork hn hp
  have hnow : (Reader.relaying p m fds).work = .answering := rfl
  have hends : s.reader.work.ends = false := by rw [hwork]; rfl
  have hsub : ∀ e ∈ s.pending.eraseP (fun e => e.1 == n), e ∈ s.pending := fun e =>
    List.mem_of_mem_eraseP
  have hleft : ∀ e ∈ s.pending, e.1 ≠ n → e ∈ s.pending.eraseP (fun e => e.1 == n) := by
    intro e he hne
    exact (List.mem_eraseP_of_neg (by simpa using hne)).mpr he
  have hperm := pending_eraseP hfind
  have hout : ∀ e ∈ s.pending.eraseP (fun e => e.1 == n), e.1 ≠ n := by
    intro e he heq
    have hkeys := (hperm.map Prod.fst).nodup_iff.mpr h.keys
    exact (List.nodup_cons.mp hkeys).1 (List.mem_map.mpr ⟨e, he, heq⟩)
  constructor
  case toNumbered =>
    refine {
      serials := h.serials, unique := h.unique, below := fun e he => h.below e (hsub e he),
      keys := ?keys, registering := ?registering, pending := ?pending }
    case keys =>
      exact (List.eraseP_sublist.map _).nodup h.keys
    case registering =>
      intro n' hn'
      obtain ⟨hlt, hnone, hrest⟩ := h.registering n' hn'
      exact ⟨hlt, fun e he => hnone e (hsub e he), hrest⟩
    case pending =>
      intro w hw hopens
      obtain ⟨p', hp', ho⟩ := h.pending w hw hopens
      exact ⟨p', hleft _ hp' (hcalls w hw hopens), ho⟩
  case awaited =>
    intro n' p' hp'
    rcases h.awaited n' p' (hsub _ hp') with hcall | ⟨m', hm, hn'⟩
    · exact Or.inl hcall
    · cases hwork.symm.trans hm
      exact absurd (Option.some.inj (hn'.symm.trans hn)) (hout _ hp')
  case inHand =>
    intro m' n' hm
    cases hnow.symm.trans hm
  case matched =>
    intro m' n' p' hm
    cases hnow.symm.trans hm
  case listed =>
    intro path hpath
    rcases h.listed path hpath with hold | hclosing | ⟨m', n', p', hm, hn', hp', ho, hhandle⟩
    · exact Or.inl (hkept path hold)
    · exact Or.inr (Or.inl (closing_of_reader hclosing hreader rfl))
    · cases hwork.symm.trans hm
      cases hn.symm.trans hn'
      rcases List.mem_cons.mp (hperm.mem_iff.mpr hp') with heq | hother
      · cases heq
        exact Or.inl (hlisted ho path hhandle)
      · exact absurd rfl (hout _ hother)
  case open_ =>
    intro path hpath
    rcases hrequests path hpath with hold | ⟨ho, hhandle⟩
    · exact Or.inl (h.open_of_ends hends path hold)
    · exact Or.inl ((hpaths path hhandle).1 ho)
  case filed =>
    intro e he
    rcases hfiles e he with hold | ⟨hk, hhandle⟩
    · refine (h.filed_of_ends hends e hold).imp_right ?_
      rintro ⟨m', hm, _⟩
      cases hwork.symm.trans hm
    · exact Or.inl ((hpaths e.1 hhandle).2 hk)
  case ending =>
    rintro (hend | ⟨m', hm, _⟩)
    · cases hnow.symm.trans hend
    · cases hnow.symm.trans hm
  case signalled =>
    intro m' hm
    cases hnow.symm.trans hm
  case past =>
    rintro m' path (hm | hm) _
    all_goals cases hnow.symm.trans hm
  case early =>
    exact h.early
  case due =>
    intro hgone hnone
    exact (h.due hgone hnone).imp_right fun hrest => hrest.imp_right fun _ => trivial

theorem tracked_takePending {m : Message} {fds : List Fd} (hinv : Tracked s g)
    (hreader : s.reader = .replying m fds) : Tracked (takePending s m fds) g := by
  have hwork : s.reader.work = .matching m := by rw [hreader]; rfl
  have hpassing : ∀ c st rest, s.reader ≠ .passing c st rest := by simp [hreader]
  cases hn : serialOf m with
  | none =>
      have hnow : takePending s m fds = s.setReader .recv := by
        unfold takePending
        rw [hn]
      rw [hnow]
      exact hinv.unmatched hwork hpassing (fun n p hserial => by cases hn.symm.trans hserial) rfl
  | some n =>
      cases hfind : s.pending.find? (fun e => e.1 == n) with
      | none =>
          have hnow : takePending s m fds = s.setReader .recv := by
            unfold takePending
            rw [hn]
            simp only [hfind]
          rw [hnow]
          refine hinv.unmatched hwork hpassing ?_ rfl
          intro n' p hserial hp
          cases hn.symm.trans hserial
          simpa using List.find?_eq_none.mp hfind _ hp
      | some e =>
          obtain ⟨n', p⟩ := e
          have hkey : n' = n := by simpa using List.find?_some hfind
          subst hkey
          exact hinv.taken hwork hpassing hn hfind

theorem tracked_relayStep {p : Pending} {m : Message} {fds : List Fd} (hinv : Tracked s g)
    (hreader : s.reader = .relaying p m fds) : Tracked (relayStep cfg s p m) g := by
  have hwork : s.reader.work = .answering := by rw [hreader]; rfl
  have hends : s.reader.work.ends = false := by rw [hwork]; rfl
  have hturn : ∀ log reader, (∀ m, reader.work ≠ .matching m) → reader.work.ends = false →
      (s.gone → reader.work.Due { s with log := log, reader := reader }) →
      Tracked { s with log := log, reader := reader } g := by
    intro log reader hmatching hlight hdue
    refine hinv.turn ⟨rfl, rfl, rfl, rfl, Nat.le_refl _, rfl, by simp [hreader], ?_, hmatching, hlight,
      fun _ _ => id, hinv.open_of_ends hends, ?_, fun hgone _ _ => Or.inr (hdue hgone)⟩
    · intro m' n p' hm
      cases hwork.symm.trans hm
    · intro e he
      refine (hinv.filed_of_ends hends e he).imp_right ?_
      rintro ⟨m', hm, _⟩
      cases hwork.symm.trans hm
  unfold relayStep
  split
  · exact hturn _ .closeIfDone (fun m hm => by cases hm) rfl fun _ => trivial
  · rename_i hgone
    exact hturn _ .recv (fun m hm => by cases hm) rfl fun hg => absurd hg hgone

/-- The path of a response from a name that the gateway listens to. -/
theorem responsePath_of_forwarded {m : Message} (hkind : m.kind = Kind.signal)
    (hpeer : m.sender ≠ some busName) (howner : fromOwner s m = true)
    (hforwarded : signalForwarded (m.path.getD "") (m.interface.getD "") = true) :
    responsePath s m =
      if m.isMember "org.freedesktop.portal.Request" "Response" then m.path else none := by
  unfold responsePath
  split
  · rename_i hall
    rw [if_pos hall.2.2.2.2]
  · rename_i hnot
    refine (if_neg ?_).symm
    intro hmember
    exact hnot ⟨hkind, hpeer, howner, hforwarded, hmember⟩

theorem signalStep_eq (fds : List Fd) {m : Message} (howner : fromOwner s m = true)
    (hforwarded : signalForwarded (m.path.getD "") (m.interface.getD "") = true) :
    ∃ requests, signalStep s m fds =
        { s with openRequests := requests, reader := .deliver m fds } ∧
      ∀ path, path ∈ requests ↔ path ∈ s.openRequests ∧
        (if m.isMember "org.freedesktop.portal.Request" "Response" then m.path else none) ≠
          some path := by
  unfold signalStep
  rw [if_neg (by simp [howner, hforwarded])]
  cases hpath : m.path with
  | none => exact ⟨s.openRequests, rfl, by simp⟩
  | some there =>
      cases hmember : m.isMember "org.freedesktop.portal.Request" "Response" with
      | false => exact ⟨s.openRequests, rfl, by simp⟩
      | true =>
          refine ⟨s.openRequests.filter (· ≠ there), rfl, ?_⟩
          intro path
          rw [if_pos rfl, List.mem_filter, decide_eq_true_eq, ne_eq, ne_eq, Option.some.injEq]
          exact and_congr_right fun _ => not_congr eq_comm

theorem tracked_signalStep {m : Message} {fds : List Fd} (hinv : Tracked s g)
    (hreader : s.reader = .signal m fds) : Tracked (signalStep s m fds) g := by
  have hwork : s.reader.work = .signalled m := by rw [hreader]; rfl
  have hpassing : ∀ c st rest, s.reader ≠ .passing c st rest := by simp [hreader]
  obtain ⟨hkind, hpeer⟩ := hinv.signalled m hwork
  by_cases hforwarded : fromOwner s m = true ∧
      signalForwarded (m.path.getD "") (m.interface.getD "") = true
  -- It is passed on: a response takes its request from the record.
  · have hresponse := responsePath_of_forwarded hkind hpeer hforwarded.1 hforwarded.2
    obtain ⟨requests, hnow, hrequests⟩ := signalStep_eq fds hforwarded.1 hforwarded.2
    rw [← hresponse] at hrequests
    rw [hnow]
    refine hinv.turn ⟨rfl, rfl, rfl, rfl, Nat.le_refl _, rfl, hpassing, ?_, ?_, rfl, ?_, ?_, ?_,
      fun _ _ _ => Or.inr trivial⟩
    · intro m' n p hm
      cases hwork.symm.trans hm
    · intro m' hm
      cases hm
    · intro path hpath hlisted
      refine (hrequests path).mpr ⟨hlisted, ?_⟩
      intro hends
      exact hinv.past m path (Or.inr hwork) hends hpath
    · intro path hpath
      obtain ⟨hlisted, hnot⟩ := (hrequests path).mp hpath
      rcases hinv.open_ path hlisted with hopen | hend | ⟨m', hm | hm, hends⟩ | ⟨m', hm, _⟩
      · exact hopen
      · cases hwork.symm.trans hend
      · cases hwork.symm.trans hm
      · cases hwork.symm.trans hm
        exact absurd hends hnot
      · cases hwork.symm.trans hm
    · intro e he
      rcases hinv.filed e he with hopen | ⟨m', hm | hm, hends⟩ | ⟨m', hm, _⟩
      · exact Or.inl hopen
      · cases hwork.symm.trans hm
      · cases hwork.symm.trans hm
        rw [hresponse] at hends
        split at hends
        · rename_i hmember
          exact Or.inr ⟨m, rfl, hmember, hends⟩
        · cases hends
      · cases hwork.symm.trans hm
  -- It is dropped, so it was no response of the portal's.
  · have hresponse : responsePath s m = none := by
      refine if_neg ?_
      rintro ⟨_, _, howner, hpasses, _⟩
      exact hforwarded ⟨howner, hpasses⟩
    have hnow : signalStep s m fds = s.setReader .recv := by
      refine if_pos ?_
      rw [not_and_or] at hforwarded
      simpa using hforwarded
    rw [hnow]
    exact hinv.ignored (Or.inr hwork) hpassing hresponse (portalChanged_of_peer hpeer)
      (Nat.le_refl _) rfl

/-- A signal is relayed, or dropped. -/
theorem tracked_deliverStep {m : Message} {fds : List Fd} {expose : Expose} (hinv : Tracked s g)
    (hreader : s.reader = .deliver m fds) (hclean : DeliversCleanly s m) :
    Tracked (deliverStep cfg s m expose) g := by
  have hwork : s.reader.work = .delivering m := by rw [hreader]; rfl
  have hends : s.reader.work.ends = false := by rw [hwork]; rfl
  have hturn : ∀ files log reader, (∀ m, reader.work ≠ .matching m) → reader.work.ends = false →
      (∀ e ∈ files, e ∈ s.fileRequests ∧
        ¬(m.isMember "org.freedesktop.portal.Request" "Response" ∧ m.path = some e.1)) →
      (s.gone → reader.work.Due { s with fileRequests := files, log := log, reader := reader }) →
      Tracked { s with fileRequests := files, log := log, reader := reader } g := by
    intro files log reader hmatching hlight hfiles hdue
    refine hinv.turn ⟨rfl, rfl, rfl, rfl, Nat.le_refl _, rfl, by simp [hreader], ?_, hmatching, hlight,
      fun _ _ => id, hinv.open_of_ends hends, ?_, fun hgone _ _ => Or.inr (hdue hgone)⟩
    · intro m' n p' hm
      cases hwork.symm.trans hm
    · intro e he
      obtain ⟨hold, hnot⟩ := hfiles e he
      rcases hinv.filed_of_ends hends e hold with hopen | ⟨m', hm, hmember, hpath⟩
      · exact Or.inl hopen
      · cases hwork.symm.trans hm
        exact absurd ⟨hmember, hpath⟩ hnot
  have htaken : ∃ files, takeFileRequest s m = { s with fileRequests := files } ∧
      ∀ e ∈ files, e ∈ s.fileRequests ∧
        ¬(m.isMember "org.freedesktop.portal.Request" "Response" ∧ m.path = some e.1) := by
    unfold takeFileRequest
    split
    · refine ⟨_, rfl, ?_⟩
      intro e he
      obtain ⟨hold, hother⟩ := List.mem_filter.mp he
      refine ⟨hold, ?_⟩
      rintro ⟨_, hpath⟩
      simp [hpath] at hother
    · rename_i hmember
      exact ⟨s.fileRequests, rfl, fun e he => ⟨he, fun hall => hmember hall.1⟩⟩
  obtain ⟨files, htake, hfiles⟩ := htaken
  unfold deliverStep
  rw [htake]
  split
  -- A client that has left gets nothing, and its connection may close.
  · rename_i hgone
    refine hturn s.fileRequests s.log .closeIfDone (fun m hm => by cases hm) rfl ?_ fun _ => trivial
    intro e he
    exact ⟨he, fun hall => hclean hgone hall.1 e he hall.2⟩
  -- The files of the request are done with.
  · rename_i hgone
    split
    all_goals
      exact hturn files _ .recv (fun m hm => by cases hm) rfl hfiles fun hg => absurd hg hgone

/-! ## Section 10: The Connection Is Closed -/

/-- Nothing in the books keeps the connection. -/
def Client.Finished (s : Client) : Prop :=
  (∀ e ∈ s.pending, e.2.opens = false) ∧ s.openRequests = []

theorem closeIfDone_cases (s : Client) :
    (s.gone ∧ s.Finished ∧ s.closeIfDone = { s with shut := true }) ∨
      (¬(s.gone ∧ s.Finished) ∧ s.closeIfDone = s) := by
  have hdone : (s.gone && (!(s.pending.any fun e => e.2.opens) && s.openRequests.isEmpty)) = true ↔
      s.gone ∧ s.Finished := by
    simp [Client.Finished]
  unfold Client.closeIfDone
  by_cases hall : s.gone ∧ s.Finished
  · exact Or.inl ⟨hall.1, hall.2, if_pos (hdone.mpr hall)⟩
  · exact Or.inr ⟨hall, if_neg (hall ∘ hdone.mp)⟩

/-- Where the books keep the connection for nothing, nothing is open. -/
theorem Tracked.outstanding_of_finished (h : Tracked s g) (hfinished : s.Finished)
    (hclosing : ∀ path ∈ g.requests, ¬s.Closing path) : g.outstanding = false := by
  obtain ⟨hpending, hlist⟩ := hfinished
  refine Hosted.outstanding_eq_false.mpr ⟨?_, ?_⟩
  · intro w hw
    cases hopens : w.opens with
    | false => rfl
    | true =>
        obtain ⟨p, hp, ho⟩ := h.pending w hw hopens
        cases (hpending _ hp).symm.trans ho
  · refine List.eq_nil_iff_forall_not_mem.mpr ?_
    intro path hpath
    rcases h.listed path hpath with hlisted | hclose | ⟨_, _, p, _, _, hp, ho, _⟩
    · rw [hlist] at hlisted
      cases hlisted
    · exact hclosing path hpath hclose
    · cases (hpending _ hp).symm.trans ho

/-- Where nothing is open, the books keep the connection for what the reading thread has in
hand, if for anything. -/
theorem Tracked.due_of_not_finished (h : Tracked s g) (hnone : g.outstanding = false)
    (hfinished : ¬s.Finished) : s.reader.work.Due s ∧ s.reader.work ≠ .closing := by
  obtain ⟨hcalls, hrequests⟩ := Hosted.outstanding_eq_false.mp hnone
  rcases not_and_or.mp hfinished with hpending | hlist
  · simp only [not_forall, Bool.not_eq_false] at hpending
    obtain ⟨⟨n, p⟩, hp, ho⟩ := hpending
    rcases h.awaited n p hp with ⟨w, hw, _, hopens, _⟩ | ⟨m, hm, hn⟩
    · cases (hcalls w hw).symm.trans (hopens.trans ho)
    · rw [hm]
      exact ⟨⟨n, p, hn, hp, ho⟩, fun hwork => by cases hwork⟩
  · obtain ⟨path, hpath⟩ := List.exists_mem_of_ne_nil _ hlist
    rcases h.open_ path hpath with hopen | hend | ⟨m, hm | hm, hends⟩ | ⟨m, hm, hchanged⟩
    · rw [hrequests] at hopen
      cases hopen
    · rw [hend]
      exact ⟨trivial, fun hwork => by cases hwork⟩
    · rw [hm]
      exact ⟨Or.inl (by rw [hends]; rfl), fun hwork => by cases hwork⟩
    · rw [hm]
      refine ⟨?_, fun hwork => by cases hwork⟩
      show (responsePath s m).isSome
      rw [hends]
      rfl
    · rw [hm]
      exact ⟨Or.inr hchanged, fun hwork => by cases hwork⟩

theorem Tracked.shutDown (h : Tracked s g) (hnone : g.outstanding = false) :
    Tracked { s with shut := true } g :=
  { h with
    early := fun _ => hnone
    due := fun _ _ => Or.inl rfl }

theorem tracked_closeIfDone (hinv : Tracked s g) (hclean : ClosesCleanly s g) :
    Tracked s.closeIfDone g ∧
      (s.gone → g.outstanding = false →
        s.closeIfDone.shut ∨ (s.reader.work.Due s ∧ s.reader.work ≠ .closing)) := by
  rcases closeIfDone_cases s with ⟨hgone, hfinished, hnow⟩ | ⟨hnot, hnow⟩
  · rw [hnow]
    refine ⟨hinv.shutDown ?_, fun _ _ => Or.inl rfl⟩
    exact hinv.outstanding_of_finished hfinished (hclean hgone hfinished.1 hfinished.2)
  · rw [hnow]
    refine ⟨hinv, fun hgone hnone => Or.inr ?_⟩
    exact hinv.due_of_not_finished hnone fun hfinished => hnot ⟨hgone, hfinished⟩

/-- The reading thread takes the requests off the list, tells the client, and looks whether the
connection is needed. -/
theorem tracked_requests {reader : Reader} {requests : List String} {log : List Event}
    (hinv : Tracked s g) (hpassing : ∀ c st rest, s.reader ≠ .passing c st rest)
    (hmatching : ∀ m, s.reader.work ≠ .matching m)
    (hlisted : ∀ path ∈ g.requests, path ∈ s.openRequests → path ∈ requests)
    (hopen : ∀ path ∈ requests, path ∈ g.requests)
    (hfiled : ∀ e ∈ s.fileRequests, e.1 ∈ g.files)
    (hwork : reader.work = .telling ∨ reader.work = .closing) :
    Tracked { s with openRequests := requests, log := log, reader := reader } g := by
  refine hinv.turn ⟨rfl, rfl, rfl, rfl, Nat.le_refl _, rfl, hpassing, ?_, ?_, ?_, hlisted, hopen, ?_, ?_⟩
  · intro m n p hm
    exact absurd hm (hmatching m)
  · intro m hm
    rcases hwork with hw | hw <;> cases hw.symm.trans hm
  · show reader.work.ends = false
    rcases hwork with hw | hw <;> rw [hw] <;> rfl
  · intro e he
    exact Or.inl (hfiled e he)
  · intro _ _ _
    refine Or.inr ?_
    show reader.work.Due _
    rcases hwork with hw | hw <;> rw [hw] <;> trivial

theorem sees_of_writes_none {a : Action} (hwrites : s.writes a = none)
    (ha : ∀ arrival, a ≠ .receive arrival) : sees s a g = g := by
  unfold sees
  rw [hwrites]
  cases a with
  | receive arrival => exact absurd rfl (ha arrival)
  | _ => rfl

/-- What the observer makes of a step of `forward`. -/
theorem sees_forward (ch : Choice) (hat : s.At t c st) :
    sees s (t.action ch) g = match st.sending c with
      | some o => if ch.sent then g.send s.serial o.call o.file o.out else g
      | none => g := by
  have hwrites : s.writes (t.action ch) = (st.sending c).map fun o => (o, ch.sent) := by
    cases t with
    | serving via =>
        have hhere : s.serving via = .forwarding c st := hat
        show (match s.serving via with
          | .forwarding c st => _
          | _ => none) = _
        rw [hhere]
    | reader rest =>
        have hhere : s.reader = .passing c st rest := hat
        show (match s.reader with
          | .passing c st _ => _
          | _ => none) = _
        rw [hhere]
  cases hsending : st.sending c with
  | none =>
      refine sees_of_writes_none (by rw [hwrites, hsending]; rfl) ?_
      intro arrival
      cases t <;> exact fun h => by cases h
  | some o =>
      unfold sees
      rw [hwrites, hsending]
      cases hsent : ch.sent <;> rfl

theorem keepsBooks_forward {ch : Choice} (hat : s.At t c st)
    (hclean : KeepsBooks (s, g) (t.action ch)) :
    ∀ o, st.sending c = some o → SendsCleanly s g o ch.sent := by
  intro o ho
  refine hclean.sends o ch.sent ?_
  cases t with
  | serving via =>
      have hhere : s.serving via = .forwarding c st := hat
      simp [Client.writes, Thread.action, hhere, ho]
  | reader rest =>
      have hhere : s.reader = .passing c st rest := hat
      simp [Client.writes, Thread.action, hhere, ho]

theorem sees_relay (ch : Choice) (hpassing : ∀ c st rest, s.reader ≠ .passing c st rest) :
    sees s (.relay ch) g = g := by
  refine sees_of_writes_none ?_ (fun arrival hrelay => by cases hrelay)
  show (match s.reader with
    | .passing c st rest => (st.sending c).map fun o => (o, ch.sent)
    | _ => none) = none
  split
  · rename_i c st rest hreader
    exact absurd hreader (hpassing c st rest)
  · rfl

/-- A step that concerns the calls held for a `Register` only. -/
theorem tracked_held {reader : Reader} {portal : PortalState} {log : List Event}
    (hinv : Tracked s g) (hpassing : ∀ c st rest, s.reader ≠ .passing c st rest)
    (hbefore : s.reader.work = .idle) (hafter : reader.work = .idle)
    (hregistering : ∀ n, portal.registering = some n → s.portal.registering = some n) :
    Tracked { s with portal := portal, log := log, reader := reader } g :=
  hinv.same (same_of_reader hpassing (hafter.trans hbefore.symm) (Nat.le_refl _) hregistering)

theorem tracked_registeredStep {m : Message} (hinv : Tracked s g) (hreader : s.reader = .registered m) :
    Tracked (registeredStep s m) g := by
  have hpassing : ∀ c st rest, s.reader ≠ .passing c st rest := by simp [hreader]
  have hwork : s.reader.work = .idle := by rw [hreader]; rfl
  unfold registeredStep
  split
  all_goals exact tracked_held (s := s) hinv hpassing hwork rfl fun n hn => by cases hn

theorem tracked_drainStep (hinv : Tracked s g) (hreader : s.reader = .drain) :
    Tracked (drainStep s) g := by
  have hpassing : ∀ c st rest, s.reader ≠ .passing c st rest := by simp [hreader]
  have hwork : s.reader.work = .idle := by rw [hreader]; rfl
  unfold drainStep
  split
  all_goals exact tracked_held (s := s) hinv hpassing hwork rfl fun _ => id

theorem tracked_handBackStep {c : Call} {rest : List Call} (hinv : Tracked s g)
    (hreader : s.reader = .handBack c rest) : Tracked (handBackStep s c rest) g :=
  tracked_held (s := s) hinv (by simp [hreader]) (by rw [hreader]; rfl) rfl fun _ => id

/-- The portal has gone: the reading thread takes its requests off the list. -/
theorem tracked_endRequests (hinv : Tracked s g) (hreader : s.reader = .endRequests .closeIfDone) :
    Tracked { s with openRequests := [], log := s.log,
                     reader := .telling s.openRequests .closeIfDone } g := by
  have hwork : s.reader.work = .ending := by rw [hreader]; rfl
  have hnone := hinv.ending (Or.inl hwork)
  refine tracked_requests hinv (by simp [hreader]) ?_ ?_ ?_ ?_ (Or.inl rfl)
  · intro m hm
    cases hwork.symm.trans hm
  · intro path hpath
    rw [hnone] at hpath
    cases hpath
  · intro path hpath
    cases hpath
  · intro e he
    rcases hinv.filed e he with hopen | ⟨m, hm | hm, _⟩ | ⟨m, hm, _⟩
    · exact hopen
    all_goals cases hwork.symm.trans hm

theorem tracked_tellStep {paths : List String} (hinv : Tracked s g)
    (hreader : s.reader = .telling paths .closeIfDone) :
    Tracked (tellStep cfg s paths .closeIfDone) g := by
  have hwork : s.reader.work = .telling := by rw [hreader]; rfl
  have hends : s.reader.work.ends = false := by rw [hwork]; rfl
  have htold : ∀ log, Tracked
      { s with openRequests := s.openRequests, log := log, reader := .closeIfDone } g := by
    intro log
    refine tracked_requests hinv (by simp [hreader]) ?_ (fun _ _ => id)
      (hinv.open_of_ends hends) ?_ (Or.inr rfl)
    · intro m hm
      cases hwork.symm.trans hm
    · intro e he
      rcases hinv.filed_of_ends hends e he with hopen | ⟨m, hm, _⟩
      · exact hopen
      · cases hwork.symm.trans hm
  unfold tellStep
  split
  all_goals exact htold _

/-- The reading thread looks whether the connection is needed. -/
theorem tracked_closing (hinv : Tracked s g) (hreader : s.reader = .closeIfDone)
    (hclean : ClosesCleanly s g) : Tracked (s.closeIfDone.setReader .recv) g := by
  have hwork : s.reader.work = .closing := by rw [hreader]; rfl
  have hends : s.reader.work.ends = false := by rw [hwork]; rfl
  obtain ⟨hnow, hdue⟩ := tracked_closeIfDone hinv hclean
  obtain ⟨shut, hshut, _⟩ := closeIfDone_eq s
  rw [hshut] at hnow hdue ⊢
  refine hnow.turn ⟨rfl, rfl, rfl, rfl, Nat.le_refl _, rfl, by simp [hreader], ?_, ?_, rfl,
    fun _ _ => id, hnow.open_of_ends hends, ?_, ?_⟩
  · intro m n p hm
    cases hwork.symm.trans hm
  · intro m hm
    cases hm
  · intro e he
    rcases hnow.filed_of_ends hends e he with hopen | ⟨m, hm, _⟩
    · exact Or.inl hopen
    · cases hwork.symm.trans hm
  · intro hgone hnone _
    exact Or.inl ((hdue hgone hnone).resolve_right fun hrest => hrest.2 hwork)

/-- The reading thread takes the next step of a call that was held. -/
theorem tracked_passing {rest : List Call} {ch : Choice} (hinv : Tracked s g)
    (hreader : s.reader = .passing c st rest) (h : relayerStep cfg s ch = some s')
    (hclean : KeepsBooks (s, g) (.relay ch)) : Tracked s' (sees s (.relay ch) g) := by
  unfold relayerStep at h
  rw [hreader] at h
  obtain ⟨⟨r, o⟩, hforward, hafter⟩ := Option.map_eq_some_iff.mp h
  have hat : s.At (.reader rest) c st := hreader
  have hsome : r.after (.reader rest) c o = some s' := by
    cases o <;> exact congrArg some hafter
  rw [show sees s (.relay ch) g = _ from sees_forward ch hat]
  exact tracked_forward hinv hat hforward hsome (keepsBooks_forward hat hclean)

/-- The reading thread takes its next step, with no call in hand. -/
theorem tracked_relay_own {ch : Choice} (hinv : Tracked s g) (h : relayerStep cfg s ch = some s')
    (hended : s.reader.ended = false) (hpassing : ∀ c st rest, s.reader ≠ .passing c st rest)
    (hthread : ThreadKeepsBooks s g (.relay ch)) : Tracked s' g := by
  unfold relayerStep at h
  cases hreader : s.reader with
  | recv =>
      rw [hreader] at h
      cases h
  | received m fds =>
      rw [hreader] at h
      exact tracked_dispatch hinv hreader h
  | registered m =>
      rw [hreader] at h
      cases h
      exact tracked_registeredStep hinv hreader
  | drain =>
      rw [hreader] at h
      cases h
      exact tracked_drainStep hinv hreader
  | next rest =>
      rw [hreader] at h
      cases rest with
      | nil | cons c rest =>
          cases h
          exact tracked_held (s := s) hinv hpassing (by rw [hreader]; rfl) rfl fun _ => id
  | passing c st rest => exact absurd hreader (hpassing c st rest)
  | handBack c rest =>
      rw [hreader] at h
      cases h
      exact tracked_handBackStep hinv hreader
  | replying m fds =>
      rw [hreader] at h
      cases h
      exact tracked_takePending hinv hreader
  | relaying p m fds =>
      rw [hreader] at h
      cases h
      exact tracked_relayStep hinv hreader
  | signal m fds =>
      rw [hreader] at h
      cases h
      exact tracked_signalStep hinv hreader
  | deliver m fds =>
      rw [hreader] at h
      have hwork : s.reader.work = .delivering m := by rw [hreader]; rfl
      simp only [ThreadKeepsBooks, hwork] at hthread
      cases h
      exact tracked_deliverStep hinv hreader hthread
  | endRequests after =>
      rw [hreader] at h hended
      cases after with
      | finish => cases hended
      | closeIfDone =>
          cases h
          exact tracked_endRequests hinv hreader
  | telling paths after =>
      rw [hreader] at h hended
      cases after with
      | finish => cases hended
      | closeIfDone =>
          cases h
          exact tracked_tellStep hinv hreader
  | closeIfDone =>
      rw [hreader] at h
      have hwork : s.reader.work = .closing := by rw [hreader]; rfl
      simp only [ThreadKeepsBooks, hwork] at hthread
      cases h
      exact tracked_closing hinv hreader hthread
  | closing | shutting | failPending | failing _ | done =>
      rw [hreader] at hended
      cases hended

/-- The reading thread takes its next step. -/
theorem tracked_relay {ch : Choice} (hinv : Tracked s g) (h : relayerStep cfg s ch = some s')
    (hended : s.reader.ended = false) (hclean : KeepsBooks (s, g) (.relay ch)) :
    Tracked s' (sees s (.relay ch) g) := by
  by_cases hhas : ∃ c st rest, s.reader = .passing c st rest
  · obtain ⟨c, st, rest, hreader⟩ := hhas
    exact tracked_passing hinv hreader h hclean
  · have hpassing : ∀ c st rest, s.reader ≠ .passing c st rest := fun c st rest hreader =>
      hhas ⟨c, st, rest, hreader⟩
    rw [sees_relay ch hpassing]
    exact tracked_relay_own hinv h hended hpassing hclean.threads

/-- A serving thread with no call in hand goes on. -/
theorem closing_setServing {via : Via} {there : Serving} {path : String} (h : s.Closing path)
    (hforwarding : ∀ c st, s.serving via ≠ .forwarding c st) :
    (s.setServing via there).Closing path := by
  obtain ⟨t, c, identified, file, out, hat, hclosed⟩ := h
  refine ⟨t, c, identified, file, out, ?_, hclosed⟩
  cases t with
  | serving via' =>
      show (if via' = via then there else s.serving via') = _
      split
      · rename_i hvia
        subst hvia
        exact absurd hat (hforwarding _ _)
      · exact hat
  | reader rest => exact hat

theorem Tracked.serve (h : Tracked s g) {via : Via} {there : Serving}
    (hforwarding : ∀ c st, s.serving via ≠ .forwarding c st)
    (hdue : s.gone → g.outstanding = false →
      s.shut ∨ (∃ via', ((s.setServing via there).serving via').isLeft) ∨ s.reader.work.Due s) :
    Tracked (s.setServing via there) g :=
  { h with
    listed := fun path hpath => (h.listed path hpath).imp_right fun hrest =>
      hrest.imp_left fun hclosing => closing_setServing hclosing hforwarding
    due := hdue }

theorem isLeft_setServing {via : Via} {there : Serving} (hleft : there.isLeft) :
    ∃ via', ((s.setServing via there).serving via').isLeft :=
  ⟨via, by
    show (if via = via then there else s.serving via).isLeft
    rw [if_pos rfl]
    exact hleft⟩

/-- A serving thread takes its next step. -/
theorem tracked_serve {via : Via} {ch : Choice} (hinv : Tracked s g)
    (h : serveStep cfg s via ch = some s') (hclean : KeepsBooks (s, g) (.serve via ch)) :
    Tracked s' (sees s (.serve via ch) g) := by
  have hsees : (∀ c st, s.serving via ≠ .forwarding c st) → sees s (.serve via ch) g = g := by
    intro hforwarding
    refine sees_of_writes_none ?_ (fun arrival hserve => by cases hserve)
    show (match s.serving via with
      | .forwarding c st => (st.sending c).map fun o => (o, ch.sent)
      | _ => none) = none
    split
    · rename_i c st hserving
      exact absurd hserving (hforwarding c st)
    · rfl
  unfold serveStep at h
  cases hserving : s.serving via with
  | idle =>
      rw [hserving] at h
      cases h
  | forwarding c st =>
      rw [hserving] at h
      obtain ⟨⟨r, o⟩, hforward, hafter⟩ := Option.bind_eq_some_iff.mp h
      have hat : s.At (.serving via) c st := hserving
      have hsome : r.after (.serving via) c o = some s' := by
        cases o <;> exact hafter
      rw [show sees s (.serve via ch) g = _ from sees_forward ch hat]
      exact tracked_forward hinv hat hforward hsome (keepsBooks_forward hat hclean)
  | leaving =>
      rw [hserving] at h
      rw [hsees (by simp [hserving])]
      cases h
      exact { hinv with
        listed := fun path hpath => (hinv.listed path hpath).imp_right fun hrest =>
          hrest.imp_left fun hclosing =>
            closing_setServing (s := { s with gone := true }) hclosing (by simp [hserving])
        due := fun _ _ => Or.inr (Or.inl (isLeft_setServing rfl)) }
  | left =>
      rw [hserving] at h
      rw [hsees (by simp [hserving])]
      cases h
      obtain ⟨hnow, hdue⟩ := tracked_closeIfDone hinv
        (hclean.threads (by show (s.serving via).isLeft; rw [hserving]; rfl))
      obtain ⟨shut, hshut, _⟩ := closeIfDone_eq s
      rw [hshut] at hnow hdue ⊢
      refine hnow.serve (by simp [hserving]) ?_
      intro hgone hnone
      rcases hdue hgone hnone with hshut | ⟨hwork, _⟩
      · exact Or.inl hshut
      · exact Or.inr (Or.inr hwork)

/-- A serving thread reads what the client sent, or that it has left. -/
theorem tracked_idle {via : Via} {there : Serving} {mapped : Bool} {calls : Nat} {log : List Event}
    (hinv : Tracked s g) (hidle : s.serving via = .idle) :
    Tracked (Client.setServing { s with mapped := mapped, calls := calls, log := log } via there) g := by
  refine Tracked.serve (s := { s with mapped := mapped, calls := calls, log := log })
    { hinv with } (by simp [hidle]) ?_
  intro hgone hnone
  rcases hinv.due hgone hnone with hshut | ⟨via', hleft⟩ | hdue
  · exact Or.inl hshut
  · refine Or.inr (Or.inl ⟨via', ?_⟩)
    show (if via' = via then there else s.serving via').isLeft
    split
    · rename_i hvia
      rw [hvia, hidle] at hleft
      cases hleft
    · exact hleft
  · exact Or.inr (Or.inr hdue)

theorem tracked_step {a : Action} (hinv : Tracked s g) (hended : s.reader.ended = false)
    (h : step cfg s a = some s') (hclean : KeepsBooks (s, g) a) :
    s'.reader.ended ∨ Tracked s' (sees s a g) := by
  have hquiet : (∀ arrival, a ≠ .receive arrival) → s.writes a = none → Tracked s' g →
      s'.reader.ended ∨ Tracked s' (sees s a g) := by
    intro ha hwrites hnow
    rw [sees_of_writes_none hwrites ha]
    exact Or.inr hnow
  cases a with
  | read via arrival =>
      refine hquiet (fun _ hread => by cases hread) rfl ?_
      simp only [step, readStep] at h
      split at h
      · rename_i hidle
        have hanswered : ∀ log, Tracked { s with calls := s.calls + 1, log := log } g := fun log =>
          { hinv with }
        have hread : ∀ log there, Tracked
            (Client.setServing { s with calls := s.calls + 1, log := log } via there) g :=
          fun log there => tracked_idle hinv hidle
        cases arrival with
        | undecodable u =>
            cases h
            exact hanswered _
        | message m fds =>
            simp only at h
            split at h
            · cases h
            · split at h
              · cases h
                exact hanswered _
              · cases h
                exact hread _ _
      · cases h
  | depart =>
      cases h
      exact hquiet (fun _ hdepart => by cases hdepart) rfl { hinv with }
  | leave via =>
      refine hquiet (fun _ hleave => by cases hleave) rfl ?_
      simp only [step, leaveStep] at h
      split at h
      · rename_i hidle
        split at h
        · cases h
          exact tracked_idle hinv hidle
        · cases h
          exact hinv
      · cases h
  | serve via ch => exact Or.inr (tracked_serve hinv h hclean)
  | receive arrival => exact Or.inr (tracked_receive hinv h hclean.threads)
  | close =>
      simp only [step, closeStep] at h
      split at h
      · cases h
        exact Or.inl rfl
      · cases h
  | relay ch => exact Or.inr (tracked_relay hinv h hended hclean)

/-- The host connection does not come back. -/
theorem ended_step {a : Action} (hended : s.reader.ended) (h : step cfg s a = some s') :
    s'.reader.ended := by
  -- Once it has ended the reading thread reads nothing more.
  have hrecv : s.reader ≠ .recv := by
    intro hreader
    rw [hreader] at hended
    cases hended
  cases a with
  | read via arrival =>
      simp only [step, readStep] at h
      split at h
      case h_2 => cases h
      cases arrival with
      | undecodable u =>
          cases h
          exact hended
      | message m fds =>
          simp only at h
          split at h
          · cases h
          split at h
          all_goals
            cases h
            exact hended
  | depart =>
      cases h
      exact hended
  | leave via =>
      simp only [step, leaveStep] at h
      split at h
      case h_2 => cases h
      split at h
      all_goals
        cases h
        exact hended
  | serve via ch =>
      simp only [step, serveStep] at h
      split at h
      · cases h
      · obtain ⟨⟨r, o⟩, hforward, hafter⟩ := Option.bind_eq_some_iff.mp h
        obtain ⟨_, _, _, _, _, hframe, _⟩ := forwardStep_frame hforward
        cases o with
        | handBack => cases hafter
        | _ =>
            cases hafter
            rw [hframe]
            exact hended
      · cases h
        exact hended
      · cases h
        obtain ⟨shut, hshut, _⟩ := closeIfDone_eq s
        rw [hshut]
        exact hended
  | receive arrival =>
      simp only [step, receiveStep] at h
      cases h
  | close =>
      simp only [step, closeStep] at h
      cases h
  | relay ch =>
      simp only [step, relayerStep] at h
      cases hreader : s.reader with
      | closing | shutting | failPending =>
          rw [hreader] at h
          cases h
          rfl
      | failing waiting =>
          rw [hreader] at h
          simp only [Option.some.injEq] at h
          unfold failStep at h
          split at h
          all_goals
            cases h
            rfl
      | endRequests after =>
          rw [hreader] at h hended
          cases after with
          | closeIfDone => cases hended
          | finish =>
              cases h
              rfl
      | telling paths after =>
          rw [hreader] at h hended
          cases after with
          | closeIfDone => cases hended
          | finish =>
              simp only [Option.some.injEq] at h
              unfold tellStep at h
              split at h
              all_goals
                cases h
                rfl
      | done =>
          rw [hreader] at h
          cases h
      | _ =>
          rw [hreader] at hended
          cases hended

/-! ## Section 11: Runs -/

/-- A client whose host connection was just set up, and a host that has nothing open. -/
theorem tracked_initial (serial : Nat) (appId owner : Option String)
    (owners : List (String × String)) : Tracked (initial serial appId owner owners) {} := by
  refine ⟨⟨by simp, List.nodup_nil, ?_, List.nodup_nil, ?_, by simp⟩, ?_, ?_, ?_,
    by simp [Hosted.requests], ?_, ?_, fun _ => rfl, ?_, ?_, ?_, ?_⟩
  all_goals simp [initial, Reader.work, Hosted.outstanding]

end Steps

/-- In every run whose steps meet the condition, the connection is kept while it is needed. -/
theorem kept_while_needed (cfg : Setup) (serial : Nat) (appId owner : Option String)
    (owners : List (String × String)) (as : List Action) (p : Client × Hosted)
    (hrun : run (watched (step cfg) sees) (initial serial appId owner owners, {}) as = some p)
    (hmeets : StepsMeet (watched (step cfg) sees) KeepsBooks
      (initial serial appId owner owners, {}) as) :
    Kept p := by
  have hinv : p.1.reader.ended ∨ Tracked p.1 p.2 := by
    refine run_invariant_of_meets (I := fun p => p.1.reader.ended ∨ Tracked p.1 p.2)
      ?_ (Or.inr (tracked_initial serial appId owner owners)) hmeets hrun
    rintro ⟨s, g⟩ a ⟨s', g'⟩ hinv hclean hstep
    obtain ⟨hs, rfl⟩ := watched_eq_some.mp hstep
    cases hended : s.reader.ended with
    | true => exact Or.inl (ended_step hended hs)
    | false =>
        refine tracked_step (hinv.resolve_left ?_) hended hs hclean
        simp [hended]
  exact hinv.imp_right Tracked.kept

/-- A condition that can be computed, and is enough: nothing is closed, and what the books
keep the connection for is listed. -/
def plain (p : Client × Hosted) (a : Action) : Bool :=
  (p.1.writes a).all (fun e => closedBy e.1.call e.1.out == none &&
    (!e.1.call.opensUri || e.1.call.msg.expectsReply)) &&
  match a with
  | .receive (.message m _) => p.2.awaited.all (·.ended.isEmpty) &&
      (p.2.opened ++ p.2.filed).all fun r =>
        (responsePath p.1 m == some r.path) == (responseOf m == some r)
  | .receive (.undecodable _) => false
  | .serve _ _ => p.2.opened.isEmpty || !p.1.openRequests.isEmpty
  | .relay _ =>
      match p.1.reader.work with
      | .delivering _ => p.1.fileRequests.isEmpty
      | .closing => p.2.opened.isEmpty || !p.1.openRequests.isEmpty
      | _ => true
  | _ => true

theorem closesCleanly_of_listed {s : Client} {g : Hosted}
    (h : (g.opened.isEmpty || !s.openRequests.isEmpty) = true) : ClosesCleanly s g := by
  intro _ _ hlist path hpath
  cases hopened : g.opened with
  | nil =>
      rw [Hosted.requests, hopened] at hpath
      cases hpath
  | cons there rest => simp [hopened, hlist] at h

theorem keepsBooks_of_plain (p : Client × Hosted) (a : Action) (h : plain p a) : KeepsBooks p a := by
  obtain ⟨s, g⟩ := p
  simp only [plain, Bool.and_eq_true] at h
  obtain ⟨hwrites, hthread⟩ := h
  refine ⟨?_, ?_⟩
  · intro o ok ho
    rw [ho] at hwrites
    obtain ⟨hclosed, hexpects⟩ : closedBy o.call o.out = none ∧
        (o.call.opensUri = false ∨ o.call.msg.expectsReply = true) := by
      simpa using hwrites
    have hnone : ∀ path, closedBy o.call o.out ≠ some path := by simp [hclosed]
    refine ⟨?_, ?_, ?_, ?_⟩
    · intro _ hopens
      exact hexpects.resolve_left (by simp [hopens])
    · exact fun _ path hpath => absurd hpath (hnone path)
    · exact fun _ path hpath => absurd hpath (hnone path)
    · exact fun _ path hpath => absurd hpath (hnone path)
  · cases a with
    | receive arrival =>
        cases arrival with
        | message m fds =>
            obtain ⟨hended, hheeds⟩ := Bool.and_eq_true_iff.mp hthread
            refine ⟨?_, ?_⟩
            · intro r hr
              have hsame := eq_of_beq (List.all_eq_true.mp hheeds r hr)
              rw [← beq_iff_eq (a := responsePath s m), hsame, beq_iff_eq]
            · intro r _ _ w hw _ _ e he
              have hempty : w.ended = [] := by simpa using List.all_eq_true.mp hended w hw
              rw [hempty] at he
              cases he
        | undecodable u => cases hthread
    | serve via ch => exact fun _ => closesCleanly_of_listed hthread
    | relay ch =>
        simp only [ThreadKeepsBooks]
        cases hwork : s.reader.work with
        | delivering m =>
            simp only [hwork] at hthread
            intro _ _ e he
            rw [List.isEmpty_iff.mp hthread] at he
            cases he
        | closing =>
            simp only [hwork] at hthread
            exact closesCleanly_of_listed hthread
        | _ => trivial
    | _ => trivial

/-- A link is opened on the host. -/
def openUriCall (flags : UInt8) : Message :=
  { Message.call portalName portalPath openUriIface "OpenURI"
      [.str "", .str "https://example.org", .dict ['s'] ['v'] []] with
    flags := flags, serial := 9, sender := some ":1.3" }

/-- The client sends the call and leaves at once, as `gdbus call` does. -/
def untilLeft (flags : UInt8) : List Action :=
  .read .portal (.message (openUriCall flags) []) :: List.replicate 6 (.serve .portal {}) ++
    [.depart, .leave .portal, .serve .portal {}, .serve .portal {}]

/-- The request is open when the client has left, and the user chooses an app. -/
def untilOpened : List Action :=
  untilLeft 0 ++ .receive (.message openFileReturn []) :: List.replicate 4 (.relay {}) ++
    .receive (.message chosen []) :: List.replicate 4 (.relay {})

theorem kept_while_needed_example :
    ∃ p, run (watched (step exampleSetup) sees) (identifiedClient, {}) untilOpened = some p ∧
      Kept p := by
  have hrun : (run (watched (step exampleSetup) sees) (identifiedClient, {}) untilOpened).any
      fun p => p.1.shut := by
    decide +kernel
  obtain ⟨p, hp, _⟩ := exists_of_any hrun
  have hmeets : StepsMeet (watched (step exampleSetup) sees) (fun p a => plain p a = true)
      (identifiedClient, {}) untilOpened := by
    decide +kernel
  exact ⟨p, hp, kept_while_needed _ _ _ _ _ _ p hp (hmeets.mono keepsBooks_of_plain)⟩

/-- The host's response, which cannot be decoded. -/
def undecodableResponse : Undecodable :=
  { message := chosen, reason := .invalidUtf8 }

/-- A call that asks for no reply is cancelled when its client leaves, with the link not opened
yet. A response that cannot be decoded leaves a connection open for ever. -/
theorem not_kept :
    (∃ p, run (watched (step exampleSetup) sees) (identifiedClient, {})
        (untilLeft flagNoReplyExpected) = some p ∧ ¬Kept p) ∧
      ∃ p, run (watched (step exampleSetup) sees) (identifiedClient, {})
        (untilLeft 0 ++ .receive (.message openFileReturn []) :: List.replicate 4 (.relay {}) ++
          [.receive (.undecodable undecodableResponse)]) = some p ∧ ¬Kept p := by
  refine ⟨?_, ?_⟩
  · have hrun : (run (watched (step exampleSetup) sees) (identifiedClient, {})
        (untilLeft flagNoReplyExpected)).any
        fun p => !p.1.reader.ended && p.1.shut && p.2.outstanding := by
      decide +kernel
    obtain ⟨p, hp, hstate⟩ := exists_of_any hrun
    simp only [Bool.and_eq_true, Bool.not_eq_true'] at hstate
    obtain ⟨⟨hended, hshut⟩, hout⟩ := hstate
    refine ⟨p, hp, ?_⟩
    rintro (hnow | hkept)
    · cases hended.symm.trans hnow
    · cases (hkept.early hshut).symm.trans hout
  · have hrun : (run (watched (step exampleSetup) sees) (identifiedClient, {})
        (untilLeft 0 ++ .receive (.message openFileReturn []) :: List.replicate 4 (.relay {}) ++
          [.receive (.undecodable undecodableResponse)])).any
        fun p => p.1.reader.atRecv && p.1.openRequests.contains requestPath &&
          p.2.opened.isEmpty := by
      decide +kernel
    obtain ⟨p, hp, hstate⟩ := exists_of_any hrun
    simp only [Bool.and_eq_true, List.contains_iff_mem, List.isEmpty_iff] at hstate
    obtain ⟨⟨hrecv, hlisted⟩, hopened⟩ := hstate
    refine ⟨p, hp, ?_⟩
    rintro (hended | hkept)
    · cases hreader : p.1.reader with
      | recv =>
          rw [hreader] at hended
          cases hended
      | _ =>
          rw [hreader] at hrecv
          cases hrecv
    · have hopen := hkept.requests hrecv _ hlisted
      rw [Hosted.requests, hopened] at hopen
      cases hopen

end Psbox.Gateway
