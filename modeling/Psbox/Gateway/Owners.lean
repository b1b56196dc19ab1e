import Psbox.Foundations.Changes
import Psbox.Gateway.Results

/-!
# The Owners of the Gateway Names

Only the owners of the gateway names on the host may send signals to a client. `client()`
subscribes to the changes of a name's owner, asks for the owner, and serves the connection
with the changes that it met meanwhile; `owner_changed` follows the later ones.

The model has the host bus with its calls and the line to the gateway's connection, the calls
of the setup, and the client that is served afterwards (`World`). `owners_are_true` says for
which runs the gateway's owners are those of the bus.
-/

namespace Psbox.Gateway

open Psbox.DBus Psbox.Portal Psbox.Foundations

/-! ## Section 1: What Messages Tell of Owners -/

/-- The owners of names on the host bus. -/
abbrev Owners := String → Option String

/-- The change that the arguments of a `NameOwnerChanged` tell. -/
def toldBy (args : List Value) : Option (String × Option String) :=
  match args.head?.bind Value.asStr, args[2]?.bind Value.asStr with
  | some name, some new => some (name, if new = "" then none else some new)
  | _, _ => none

/-- The change that a message of the bus tells. -/
def ownerChange (m : Message) : Option (String × Option String) :=
  if m.kind = Kind.signal ∧ m.sender = some busName ∧ m.isMember busName "NameOwnerChanged" then
    match m.args with
    | .ok args => toldBy args
    | .error _ => none
  else none

/-- The owner that the answer to a `GetNameOwner` tells. -/
def ownerTold (reply : Message) : Option String :=
  match reply.args with
  | .ok args => args.head?.bind Value.asStr
  | .error _ => none

/-- What becomes of a message that is read while a call waits for its reply (`call_fds`). -/
inductive Heard where
  /-- The call ends with it. -/
  | ends (r : Received)
  /-- It is from the bus, and kept for `recv`. -/
  | kept
  | dropped

def heard (n : Nat) : Arrival → Heard
  | .message m fds =>
      if serialOf m = some n then .ends (callResult m fds)
      else if m.sender = some busName then .kept
      else .dropped
  | .undecodable u =>
      if serialOf u.message ≠ some n then .dropped else .ends (.error (.undecodable u))

/-- What is heard here is what the loop of `call_fds` goes by: where it ends, and what it keeps for
later. -/
theorem callLoop_heard (serial : UInt32) (ends : Nat) (backlog : List (Message × List Fd))
    (t : Turn) (ts : List Turn) :
    callLoop none serial ends backlog (t :: ts) =
      match heard serial.toNat t.arrival with
      | .ends r => (r, { backlog := backlog, incoming := ts, ends := ends })
      | .kept => callLoop none serial ends (backlog ++ t.arrival.decoded.toList) ts
      | .dropped => callLoop none serial ends backlog ts := by
  have hserial : ∀ m : Message, serialOf m = some serial.toNat ↔ m.replySerial = some serial := by
    intro m
    simp [serialOf, UInt32.toNat_inj]
  obtain ⟨now, arrival⟩ := t
  cases arrival with
  | message m fds =>
      simp only [callLoop, deadlinePassed, Option.any_none, heard, hserial]
      by_cases hreply : m.replySerial = some serial
      · simp [hreply]
      · by_cases hbus : m.sender = some busName
        · simp [hreply, hbus, Arrival.decoded]
        · simp [hreply, hbus]
  | undecodable u =>
      simp only [callLoop, deadlinePassed, Option.any_none, heard, ne_eq, hserial]
      by_cases hreply : u.message.replySerial = some serial
      · simp [hreply]
      · simp [hreply]

/-! ## Section 2: The Setup -/

/-- A call of the setup. -/
inductive Question where
  /-- `Register`, of the portal. -/
  | register (app : String)
  /-- `AddMatch`, of the bus. -/
  | addMatch (rule : String)
  /-- `GetNameOwner`, of the bus. -/
  | getNameOwner (name : String)
  deriving DecidableEq

def Question.toBus : Question → Bool
  | .register _ => false
  | _ => true

/-- The rule for the signals of a name's owner. -/
def signalsRule (name : String) : String :=
  "type='signal',sender='" ++ name ++ "'"

/-- The rule for the changes of a name's owner. -/
def changesRule (name : String) : String :=
  "type='signal',sender='org.freedesktop.DBus',member='NameOwnerChanged',arg0='" ++ name ++ "'"

/-- Subscribed before asking, so no change of owner falls in between. -/
def follow (name : String) : List Question :=
  [.addMatch (signalsRule name), .addMatch (changesRule name), .getNameOwner name]

/-- The calls that `client()` makes, with an identity or without. -/
def script (identity : Option String) : List Question :=
  (identity.map Question.register).toList ++ gatewayNames.flatMap follow

structure SettingUp where
  /-- The calls to make, the one that waits for its reply first. -/
  todo : List Question
  /-- The serial of the call that waits. -/
  waiting : Option Nat := none
  /-- The next serial of the connection. -/
  serial : Nat
  owners : List (String × String) := []
  appId : Option String := none
  /-- The portal instance that is taken to have accepted the registration. -/
  owner : Option String := none
  /-- How the registration went: a portal accepts it by a return. -/
  log : List Event := []

/-- Where `client()` and the thread that serves the connection are. -/
inductive Phase where
  | settingUp (u : SettingUp)
  /-- `client()` returned an error. -/
  | failed
  | serving (s : Client)

/-- The next serial of the gateway's connection. -/
def Phase.serial : Phase → Nat
  | .settingUp u => u.serial
  | .failed => 0
  | .serving s => s.serial

namespace SettingUp

/-- After the last call, the connection is served. -/
def next (u : SettingUp) : Phase :=
  match u.todo with
  | [] => .serving (initial u.serial u.appId u.owner u.owners u.log)
  | _ :: _ => .settingUp u

/-- What `client()` does with the result of a call. -/
def finish (u : SettingUp) (q : Question) (rest : List Question) (r : Received) : Phase :=
  let u := { u with todo := rest, waiting := none }
  match q, r with
  | .register app, .ok (reply, _) =>
      { u with
        appId := some app, owner := reply.sender
        log := if reply.kind = Kind.methodReturn then .accepted reply.sender :: u.log else u.log }.next
  | .register _, .error _ => { u with log := .refused :: u.log }.next
  | .addMatch _, .ok _ => u.next
  | .addMatch _, .error _ => .failed
  | .getNameOwner name, .ok (reply, _) =>
      match ownerTold reply with
      | some owner => { u with owners := (name, owner) :: u.owners }.next
      | none => u.next
  -- Not running yet is fine: activation shows as a change of owner.
  | .getNameOwner _, .error _ => u.next

end SettingUp

/-! ## Section 3: The Host Bus -/

/-- A message on the line to the gateway's connection. -/
structure Delivery where
  arrival : Arrival
  /-- The owners when the bus put it there. -/
  owners : Owners

structure World where
  /-- The owners on the host bus. -/
  owners : Owners
  /-- The match rules of the gateway's connection. -/
  rules : List String := []
  /-- The calls to the bus that it has not answered, by serial. -/
  calls : List (Nat × Question) := []
  /-- The serials of all calls to the bus. -/
  asked : List Nat := []
  line : List Delivery := []
  /-- The messages kept for `recv`. -/
  backlog : List Delivery := []
  phase : Phase
  /-- The owners when the bus put the message on the line that the gateway read last. -/
  lastRead : Owners

/-- What the parties do. The messages of the bus are as it writes them: the guards of `step`
say what is relied on. -/
inductive Move where
  /-- A name on the host has another owner, or none. The bus tells by `m`. -/
  | change (name : String) (new : Option String) (m : Message)
  /-- The bus answers the first call by `m`. -/
  | answer (m : Message)
  /-- Anything else that the bus or a peer sends to the connection. -/
  | deliver (a : Arrival)
  /-- The gateway writes its next call, or fails to. -/
  | ask (sent : Bool)
  /-- The gateway reads while its call waits. -/
  | hear
  /-- The connection ends while a call waits. -/
  | breaks
  /-- The thread that serves the connection reads a message. -/
  | receive
  /-- Another step of the client that is served. -/
  | serve (a : Action)

/-- Messages from the host come off the line. -/
def Action.receives : Action → Bool
  | .receive _ => true
  | _ => false

namespace World

def putOnLine (w : World) (a : Arrival) : World :=
  { w with line := w.line ++ [{ arrival := a, owners := w.owners }] }

/-- A name has a new owner, of which the gateway is told if it has the rule. -/
def changeOwner (w : World) (name : String) (new : Option String) (m : Message) : World :=
  let w := { w with owners := fun n => if n = name then new else w.owners n }
  if w.rules.contains (changesRule name) then w.putOnLine (.message m []) else w

/-- What the answer of the bus to a call says. -/
def answers (w : World) (m : Message) : Question → Bool
  | .register _ => false
  | .addMatch _ => m.kind == Kind.methodReturn
  | .getNameOwner name =>
      if m.kind = Kind.methodReturn then (w.owners name).isSome && ownerTold m == w.owners name
      else w.owners name == none

def answer (w : World) (m : Message) : Option World :=
  match w.calls with
  | [] => none
  | (n, q) :: rest =>
      if m.sender = some busName ∧ isReply m ∧ serialOf m = some n ∧ w.answers m q then
        let w := { w with calls := rest }
        let w := match q with
          | .addMatch rule => { w with rules := rule :: w.rules }
          | _ => w
        some (w.putOnLine (.message m []))
      else none

/-- The bus sets the sender of what it passes on. A reply is to a call that was sent to the
peer, and so is a message with a serial that the bus writes itself. -/
def mayDeliver (w : World) (a : Arrival) : Bool :=
  a.header.sender.any senderName &&
  (!a.fromBus || (a.decoded.isSome && (ownerChange a.header).isNone)) &&
  (!(a.fromBus || isReply a.header) || match serialOf a.header with
    | some n => n < w.phase.serial && !w.asked.contains n
    | none => true)

def ask (w : World) (sent : Bool) : Option World :=
  match w.phase with
  | .settingUp u =>
      match u.waiting, u.todo with
      | none, q :: rest =>
          if sent then
            let w := { w with phase := .settingUp { u with waiting := some u.serial, serial := u.serial + 1 } }
            some (if q.toBus then
              { w with calls := w.calls ++ [(u.serial, q)], asked := u.serial :: w.asked } else w)
          else some { w with phase := { u with serial := u.serial + 1 }.finish q rest (.error .broken) }
      | _, _ => none
  | _ => none

def hear (w : World) : Option World :=
  match w.phase with
  | .settingUp u =>
      match u.waiting, u.todo, w.line with
      | some n, q :: rest, d :: line =>
          let w := { w with line := line, lastRead := d.owners }
          match heard n d.arrival with
          | .ends r => some { w with phase := u.finish q rest r }
          | .kept => some { w with backlog := w.backlog ++ [d] }
          | .dropped => some w
      | _, _, _ => none
  | _ => none

def breaks (w : World) : Option World :=
  match w.phase with
  | .settingUp u =>
      match u.waiting, u.todo with
      | some _, q :: rest => some { w with phase := u.finish q rest (.error .broken) }
      | _, _ => none
  | _ => none

/-- `recv` returns the backlog first. -/
def receive (w : World) : Option World :=
  match w.phase with
  | .serving s =>
      match w.backlog, w.line with
      | d :: backlog, _ => (receiveStep s d.arrival).map fun s' =>
          { w with backlog := backlog, phase := .serving s', lastRead := d.owners }
      | [], d :: line => (receiveStep s d.arrival).map fun s' =>
          { w with line := line, phase := .serving s', lastRead := d.owners }
      | [], [] => none
  | _ => none

def serve (cfg : Setup) (w : World) (a : Action) : Option World :=
  match w.phase with
  | .serving s =>
      if a.receives then none
      else (Gateway.step cfg s a).map fun s' => { w with phase := .serving s' }
  | _ => none

def step (cfg : Setup) (w : World) : Move → Option World
  | .change name new m =>
      if ownerChange m = some (name, new) ∧ serialOf m = none then some (w.changeOwner name new m)
      else none
  | .answer m => w.answer m
  | .deliver a => if w.mayDeliver a then some (w.putOnLine a) else none
  | .ask sent => w.ask sent
  | .hear => w.hear
  | .breaks => w.breaks
  | .receive => w.receive
  | .serve a => w.serve cfg a

/-- The host connection was made, and `client()` begins. -/
def initial (owners : Owners) (identity : Option String) (serial : Nat) : World :=
  { owners := owners, phase := .settingUp { todo := script identity, serial := serial },
    lastRead := owners }

end World

/-! ## Section 4: True Owners -/

/-- The gateway has read all that the bus put on the line, and done with it. -/
def World.Settled (w : World) (s : Client) : Prop :=
  w.phase = .serving s ∧ s.reader = .recv ∧ w.backlog = [] ∧ w.line = []

/-- A step of the client that passes the signal on. -/
def World.PassesOn (w w' : World) (m : Message) : Prop :=
  ∃ s s' args expose out, w.phase = .serving s ∧ w'.phase = .serving s' ∧
    s'.log = .relayed m args expose out :: s.log

/-- The owners that the gateway has are those of the bus, and only their signals are passed on:
the sender owned one of the names when the bus put the signal on the line. -/
structure OwnersTrue (cfg : Setup) (w : World) : Prop where
  settled : ∀ s, w.Settled s → ∀ name ∈ gatewayNames, s.ownerOf name = w.owners name
  passed : ∀ a w' m, World.step cfg w a = some w' → w.PassesOn w' m →
    (∃ name ∈ gatewayNames, (w.lastRead name).isSome ∧ w.lastRead name = m.sender) ∧
      signalForwarded (m.path.getD "") (m.interface.getD "")

/-- The owner of a name is asked for next, or was. -/
def World.asksOwner (w : World) : Bool :=
  match w.phase with
  | .settingUp u =>
      match u.todo with
      | .getNameOwner _ :: _ => true
      | _ => false
  | _ => false

/-- The serial of the call that waits. -/
def World.waiting (w : World) : Option Nat :=
  match w.phase with
  | .settingUp u => u.waiting
  | _ => none

/-- What is read with the serial of a `GetNameOwner` that waits is a reply. The connection does
not fail such a call. -/
def World.TakesAnswer (w : World) : Move → Prop
  | .ask sent => w.asksOwner → sent
  | .breaks => w.asksOwner = false
  | .hear => w.asksOwner → ∀ d ∈ w.line.head?, serialOf d.arrival.header = w.waiting →
      isReply d.arrival.header
  | _ => True

instance (w : World) : DecidablePred w.TakesAnswer
  | .ask sent => inferInstanceAs (Decidable (w.asksOwner → sent))
  | .breaks => inferInstanceAs (Decidable (w.asksOwner = false))
  | .hear => inferInstanceAs (Decidable (w.asksOwner → ∀ d ∈ w.line.head?,
      serialOf d.arrival.header = w.waiting → isReply d.arrival.header))
  | .change .. | .answer _ | .deliver _ | .receive | .serve _ => .isTrue trivial

/-! ## Section 5: What the Client's Steps Do to the Owners -/

/-- The owner that is recorded of a name. -/
def ownerIn (owners : List (String × String)) (name : String) : Option String :=
  (owners.find? fun e => e.1 == name).map Prod.snd

theorem ownerIn_cons (e : String × String) (owners : List (String × String)) (name : String) :
    ownerIn (e :: owners) name = if e.1 = name then some e.2 else ownerIn owners name := by
  unfold ownerIn
  rw [List.find?_cons]
  by_cases hname : e.1 = name
  · simp [hname]
  · have hbeq : (e.1 == name) = false := by simpa using hname
    rw [hbeq, if_neg hname]

theorem ownerIn_others (owners : List (String × String)) (name other : String) :
    ownerIn (owners.filter fun e => e.1 != name) other =
      if other = name then none else ownerIn owners other := by
  induction owners with
  | nil => simp [ownerIn]
  | cons e owners ih =>
      by_cases hname : e.1 = name
      · rw [List.filter_cons_of_neg (by simpa using hname), ih, ownerIn_cons]
        by_cases hother : other = name
        · rw [if_pos hother, if_pos hother]
        · rw [if_neg hother, if_neg hother, if_neg (by rw [hname]; exact Ne.symm hother)]
      · rw [List.filter_cons_of_pos (by simpa using hname), ownerIn_cons, ih, ownerIn_cons]
        by_cases hother : other = name
        · rw [if_pos hother, if_pos hother, if_neg (by rw [hother]; exact hname)]
        · rw [if_neg hother, if_neg hother]

/-- `owner_changed` makes the change that is told. -/
theorem ownerIn_ownerChanged (owners : List (String × String)) (args : List Value) {name : String}
    (hname : name ∈ gatewayNames) :
    ownerIn (ownerChanged owners args) name =
      match toldBy args with
      | some c => if c.1 = name then c.2 else ownerIn owners name
      | none => ownerIn owners name := by
  unfold ownerChanged toldBy
  cases args.head?.bind Value.asStr with
  | none => rfl
  | some changed =>
      cases args[2]?.bind Value.asStr with
      | none => rfl
      | some new =>
          simp only
          by_cases hknown : gatewayNames.contains changed
          · rw [if_neg (by simpa using hknown)]
            by_cases hnew : new = ""
            · rw [if_pos hnew, if_pos hnew, ownerIn_others]
              by_cases heq : changed = name
              · rw [if_pos heq.symm, if_pos heq]
              · rw [if_neg (Ne.symm heq), if_neg heq]
            · rw [if_neg hnew, if_neg hnew, ownerIn_cons, ownerIn_others]
              by_cases heq : changed = name
              · rw [if_pos heq, if_pos heq]
              · rw [if_neg heq, if_neg heq, if_neg (Ne.symm heq)]
          · have hother : changed ≠ name := by
              rintro rfl
              exact hknown (by simpa using hname)
            rw [if_pos (by simpa using hknown), if_neg hother]

/-- One owner is recorded of each name, and of the gateway names only. -/
def Owned (owners : List (String × String)) : Prop :=
  (owners.map Prod.fst).Nodup ∧ ∀ e ∈ owners, e.1 ∈ gatewayNames

theorem Owned.ownerIn {owners : List (String × String)} (h : Owned owners) {e : String × String}
    (he : e ∈ owners) : Psbox.Gateway.ownerIn owners e.1 = some e.2 := by
  obtain ⟨hnodup, -⟩ := h
  induction owners with
  | nil => cases he
  | cons first rest ih =>
      obtain ⟨hfirst, hrest⟩ := List.nodup_cons.mp hnodup
      rw [ownerIn_cons]
      rcases List.mem_cons.mp he with rfl | he
      · rw [if_pos rfl]
      · rw [if_neg]
        · exact ih he hrest
        · rintro heq
          exact hfirst (List.mem_map.mpr ⟨e, he, heq.symm⟩)

theorem owned_ownerChanged {owners : List (String × String)} (h : Owned owners) (args : List Value) :
    Owned (ownerChanged owners args) := by
  obtain ⟨hnodup, hnames⟩ := h
  unfold ownerChanged
  split
  · rename_i name new _ _
    split
    · exact ⟨hnodup, hnames⟩
    · rename_i hknown
      -- The name is taken out first, so it is not there twice.
      have hsub : ((owners.filter fun e => e.1 != name).map Prod.fst).Nodup :=
        (List.filter_sublist.map _).nodup hnodup
      have hrest : ∀ e ∈ owners.filter fun e => e.1 != name, e.1 ∈ gatewayNames := fun e he =>
        hnames e (List.mem_of_mem_filter he)
      dsimp only
      split
      · exact ⟨hsub, hrest⟩
      · refine ⟨List.nodup_cons.mpr ⟨?_, hsub⟩, ?_⟩
        · intro hin
          obtain ⟨e, he, heq⟩ := List.mem_map.mp hin
          simpa [heq] using (List.mem_filter.mp he).2
        · intro e he
          rcases List.mem_cons.mp he with rfl | he
          · simpa using hknown
          · exact hrest e he
  · exact ⟨hnodup, hnames⟩

/-- The message that the reading thread has in hand, when it may be a signal to pass on. -/
def Reader.signalled : Reader → Option Message
  | .received m _ | .signal m _ | .deliver m _ => some m
  | _ => none

/-- What a step of the client, other than reading from the host, does to the owners and to the
message in hand. -/
inductive Handled (s s' : Client) : Prop where
  | aside (howners : s'.owners = s.owners) (hreader : s'.reader = s.reader)
  | idle (howners : s'.owners = s.owners) (hnot : ∀ m fds, s.reader ≠ .received m fds)
      (hidle : s'.reader.signalled = none)
  | looked (m : Message) (fds : List Fd) (hreader : s.reader = .received m fds)
      (howners : (ownerChange m = none ∧ s'.owners = s.owners) ∨
        ∃ args, ownerChange m = toldBy args ∧ s'.owners = ownerChanged s.owners args)
      (hnext : s'.reader.signalled = none ∨ (s'.reader = .signal m fds ∧ m.sender ≠ some busName))
  | checked (m : Message) (fds : List Fd) (hreader : s.reader = .signal m fds)
      (howners : s'.owners = s.owners) (hnext : s'.reader = .deliver m fds)
      (howner : fromOwner s m = true)
      (hforwarded : signalForwarded (m.path.getD "") (m.interface.getD "") = true)

section Handled

variable {cfg : Setup} {s s' : Client}

theorem ownerChange_of_kind {m : Message} (h : m.kind ≠ Kind.signal) : ownerChange m = none :=
  if_neg fun hall => h hall.1

theorem handled_dispatch {m : Message} {fds : List Fd} {ch : Choice}
    (hreader : s.reader = .received m fds) (h : dispatch s m fds ch = some s') :
    Handled s s' ∧ s.serial ≤ s'.serial := by
  unfold dispatch at h
  split at h
  -- A reply says nothing of owners.
  · rename_i hreply
    have hnone : ownerChange m = none := by
      refine ownerChange_of_kind ?_
      intro hkind
      simp [isReply, hkind, Kind.signal, Kind.methodReturn, Kind.error] at hreply
    split at h
    all_goals
      cases h
      exact ⟨.looked m fds hreader (Or.inl ⟨hnone, rfl⟩) (Or.inl rfl), Nat.le_refl _⟩
  split at h
  · rename_i hkind
    split at h
    -- A signal of the bus: the only kind that owners are taken from.
    · rename_i hsender
      split at h
      · rename_i args hargs
        split at h
        · rename_i hmember
          have htold : ownerChange m = toldBy args := by
            unfold ownerChange
            rw [if_pos ⟨hkind, hsender, hmember⟩, hargs]
          simp only at h
          split at h
          all_goals
            cases h
            exact ⟨.looked m fds hreader (Or.inr ⟨args, htold, rfl⟩) (Or.inl rfl), Nat.le_refl _⟩
        · rename_i hmember
          cases h
          have hnone : ownerChange m = none := if_neg fun hall => hmember hall.2.2
          exact ⟨.looked m fds hreader (Or.inl ⟨hnone, rfl⟩) (Or.inl rfl), Nat.le_refl _⟩
      · rename_i hargs
        cases h
        have hnone : ownerChange m = none := by
          unfold ownerChange
          split
          · rw [hargs]
          · rfl
        exact ⟨.looked m fds hreader (Or.inl ⟨hnone, rfl⟩) (Or.inl rfl), Nat.le_refl _⟩
    -- A signal of a peer's, whatever it says of owners.
    · rename_i hsender
      cases h
      have hnone : ownerChange m = none := if_neg fun hall => hsender hall.2.1
      exact ⟨.looked m fds hreader (Or.inl ⟨hnone, rfl⟩) (Or.inr ⟨rfl, hsender⟩), Nat.le_refl _⟩
  -- A call to the gateway, which it refuses.
  · rename_i hkind
    have hnone := ownerChange_of_kind hkind
    split at h
    · split at h
      · cases h
        exact ⟨.looked m fds hreader (Or.inl ⟨hnone, rfl⟩) (Or.inl rfl), Nat.le_succ _⟩
      · cases h
    · cases h
      exact ⟨.looked m fds hreader (Or.inl ⟨hnone, rfl⟩) (Or.inl rfl), Nat.le_refl _⟩

theorem handled_forward {c : Call} {st : Stage} {fromHeld : Bool} {ch : Choice} {o : Outcome}
    {r : Client} (h : forwardStep cfg s fromHeld c st ch = some (r, o)) :
    r.owners = s.owners ∧ r.reader = s.reader ∧ s.serial ≤ r.serial := by
  obtain ⟨portal, log, serial, pending, openRequests, rfl, hserial⟩ := forwardStep_frame h
  exact ⟨rfl, rfl, hserial⟩

theorem handled_signalStep {m : Message} {fds : List Fd} (hreader : s.reader = .signal m fds) :
    Handled s (signalStep s m fds) ∧ s.serial ≤ (signalStep s m fds).serial := by
  have hnot : ∀ m fds, s.reader ≠ .received m fds := by simp [hreader]
  unfold signalStep
  split
  · exact ⟨.idle rfl hnot rfl, Nat.le_refl _⟩
  · rename_i hpasses
    obtain ⟨howner, hforwarded⟩ : fromOwner s m = true ∧
        signalForwarded (m.path.getD "") (m.interface.getD "") = true := by
      simpa using hpasses
    cases m.path with
    | none => exact ⟨.checked m fds hreader rfl rfl howner hforwarded, Nat.le_refl _⟩
    | some path =>
        simp only
        split
        all_goals exact ⟨.checked m fds hreader rfl rfl howner hforwarded, Nat.le_refl _⟩

theorem handled_relayer {ch : Choice} (h : relayerStep cfg s ch = some s') :
    Handled s s' ∧ s.serial ≤ s'.serial := by
  unfold relayerStep at h
  -- These steps read no message that tells of owners.
  have hidle : ∀ r : Client, r.owners = s.owners → r.serial = s.serial → r.reader.signalled = none →
      (∀ m fds, s.reader ≠ .received m fds) → Handled s r ∧ s.serial ≤ r.serial := by
    intro r howners hserial hreader hnot
    exact ⟨.idle howners hnot hreader, Nat.le_of_eq hserial.symm⟩
  -- By the place of the reading thread: only a message just read may tell of owners.
  split at h
  · cases h
  · rename_i m fds hreader
    exact handled_dispatch hreader h
  · rename_i m hreader
    cases h
    unfold registeredStep
    -- The Register is answered, or something else was read.
    split <;> exact hidle _ rfl rfl rfl (by simp [hreader])
  · rename_i hreader
    cases h
    unfold drainStep
    split <;> exact hidle _ rfl rfl rfl (by simp [hreader])
  · rename_i hreader
    cases h
    exact hidle _ rfl rfl rfl (by simp [hreader])
  · rename_i c rest hreader
    cases h
    exact hidle _ rfl rfl rfl (by simp [hreader])
  · rename_i c st rest hreader
    -- The held calls go on through `forward`, which leaves the owners.
    obtain ⟨⟨r, o⟩, hforward, hafter⟩ := Option.map_eq_some_iff.mp h
    obtain ⟨howners, _, hserial⟩ := handled_forward hforward
    subst hafter
    refine ⟨.idle ?_ (by simp [hreader]) ?_, ?_⟩
    -- Whether they are done or one more follows, the owners are the same.
    all_goals
      cases o <;> first | exact howners | rfl | exact hserial
  · rename_i c rest hreader
    cases h
    exact hidle _ rfl rfl rfl (by simp [hreader])
  · rename_i m fds hreader
    cases h
    unfold takePending
    split
    · exact hidle _ rfl rfl rfl (by simp [hreader])
    · split
      · exact hidle _ rfl rfl rfl (by simp [hreader])
      · rename_i p _
        cases p.file <;> cases p.opens <;> cases handleOf m <;>
          exact hidle _ rfl rfl rfl (by simp [hreader])
  · rename_i p m fds hreader
    cases h
    unfold relayStep
    split <;> exact hidle _ rfl rfl rfl (by simp [hreader])
  · rename_i m fds hreader
    cases h
    exact handled_signalStep hreader
  · rename_i m fds hreader
    cases h
    obtain ⟨files, hfiles⟩ := takeFileRequest_eq s m
    unfold deliverStep
    rw [hfiles]
    split
    · exact hidle _ rfl rfl rfl (by simp [hreader])
    · split <;> exact hidle _ rfl rfl rfl (by simp [hreader])
  · rename_i after hreader
    cases h
    exact hidle _ rfl rfl rfl (by simp [hreader])
  · rename_i paths after hreader
    cases h
    unfold tellStep
    cases after <;> split <;> exact hidle _ rfl rfl rfl (by simp [hreader])
  · rename_i hreader
    cases h
    obtain ⟨shut, hshut, _⟩ := closeIfDone_eq s
    rw [hshut]
    exact hidle _ rfl rfl rfl (by simp [hreader])
  · rename_i hreader
    cases h
    exact hidle _ rfl rfl rfl (by simp [hreader])
  · rename_i hreader
    cases h
    exact hidle _ rfl rfl rfl (by simp [hreader])
  · rename_i hreader
    cases h
    exact hidle _ rfl rfl rfl (by simp [hreader])
  · rename_i waiting hreader
    cases h
    unfold failStep
    split <;> exact hidle _ rfl rfl rfl (by simp [hreader])
  · cases h

/-- Every step but reading from the host. -/
theorem handled_step {a : Action} (ha : a.receives = false) (h : Gateway.step cfg s a = some s') : Handled s s' ∧ s.serial ≤ s'.serial := by
  cases a with
  -- Only this thread learns of owners, so the others change nothing of them.
  | read via arrival =>
      simp only [Gateway.step, readStep] at h
      split at h
      case h_2 => cases h
      cases arrival with
      | undecodable u =>
          cases h
          exact ⟨.aside rfl rfl, Nat.le_refl _⟩
      | message m fds =>
          simp only at h
          split at h
          · cases h
          split at h
          all_goals
            cases h
            exact ⟨.aside rfl rfl, Nat.le_refl _⟩
  | depart =>
      cases h
      exact ⟨.aside rfl rfl, Nat.le_refl _⟩
  | leave via =>
      simp only [Gateway.step, leaveStep] at h
      split at h
      case h_2 => cases h
      split at h
      all_goals
        cases h
        exact ⟨.aside rfl rfl, Nat.le_refl _⟩
  | serve via ch =>
      simp only [Gateway.step, serveStep] at h
      split at h
      · cases h
      · obtain ⟨⟨r, o⟩, hforward, hafter⟩ := Option.bind_eq_some_iff.mp h
        obtain ⟨howners, hreader, hserial⟩ := handled_forward hforward
        cases o with
        | handBack => cases hafter
        | _ =>
            cases hafter
            exact ⟨.aside howners hreader, hserial⟩
      · cases h
        exact ⟨.aside rfl rfl, Nat.le_refl _⟩
      · cases h
        obtain ⟨shut, hshut, _⟩ := closeIfDone_eq s
        rw [hshut]
        exact ⟨.aside rfl rfl, Nat.le_refl _⟩
  | receive arrival => cases ha
  | close =>
      simp only [Gateway.step, closeStep] at h
      split at h
      · rename_i hreader
        cases h
        exact ⟨.idle rfl (by simp [hreader]) rfl, Nat.le_refl _⟩
      · cases h
  | relay ch => exact handled_relayer h

end Handled

/-! ## Section 6: The Invariant -/

/-- The change that an arrival tells. -/
def changeIn : Arrival → Option (String × Option String)
  | .message m _ => ownerChange m
  | .undecodable _ => none

def changesIn (ds : List Delivery) : List (String × Option String) :=
  ds.filterMap fun d => changeIn d.arrival

/-- The owner that a call ends with, where it ends with the arrival. -/
def ownerAnswered : Arrival → Option String
  | .message m fds =>
      match callResult m fds with
      | .ok (reply, _) => ownerTold reply
      | .error _ => none
  | .undecodable _ => none

namespace Phase

def owners : Phase → List (String × String)
  | settingUp u => u.owners
  | failed => []
  | serving s => s.owners

def todo : Phase → List Question
  | settingUp u => u.todo
  | _ => []

/-- The owner of the name was asked for. -/
def Knows (p : Phase) (name : String) : Prop :=
  .getNameOwner name ∉ p.todo

/-- The change that the reading thread has in hand. -/
def inHand : Phase → List (String × Option String)
  | serving s =>
      match s.reader with
      | .received m _ => (ownerChange m).toList
      | _ => []
  | _ => []

/-- The `GetNameOwner` that waits, by serial and name. -/
def asks : Phase → Option (Nat × String)
  | settingUp u =>
      match u.waiting, u.todo.head? with
      | some n, some (.getNameOwner name) => some (n, name)
      | _, _ => none
  | _ => none

/-- The calls that are not written yet. -/
def unwritten : Phase → List Question
  | settingUp u => if u.waiting.isSome then u.todo.tail else u.todo
  | _ => []

end Phase

/-- Once the gateway has read the messages `seen`, it will have the owner that `o` gives the
name. -/
structure Right (p : Phase) (seen : List Delivery) (o : Owners) (name : String) : Prop where
  told : ∀ v, lastChange name (p.inHand ++ changesIn seen) = some v → v = o name
  known : p.Knows name → lastChange name (p.inHand ++ changesIn seen) = none →
    ownerIn p.owners name = o name
  answered : ∀ n, p.asks = some (n, name) → lastChange name (p.inHand ++ changesIn seen) = none →
    ∀ d ∈ seen, d.arrival.fromBus → serialOf d.arrival.header = some n →
      ownerAnswered d.arrival = o name

/-- At every message on the line, and behind the last. -/
structure Agrees (p : Phase) (backlog line : List Delivery) (o : Owners) : Prop where
  now : ∀ name ∈ gatewayNames, Right p (backlog ++ line) o name
  past : ∀ before d after, line = before ++ d :: after →
    ∀ name ∈ gatewayNames, Right p (backlog ++ (before ++ [d])) d.owners name

/-- What the bus and the peers put on the line. -/
structure LineRight (backlog line : List Delivery) (serial : Nat) (asked : List Nat) : Prop where
  kept : ∀ d ∈ backlog, d.arrival.fromBus
  silent : ∀ d ∈ line, changeIn d.arrival ≠ none → serialOf d.arrival.header = none
  sent : ∀ d ∈ backlog ++ line, d.arrival.fromBus → ∀ n, serialOf d.arrival.header = some n →
    n < serial
  replies : ∀ d ∈ line, isReply d.arrival.header → d.arrival.fromBus = false →
    ∀ n, serialOf d.arrival.header = some n → n < serial ∧ n ∉ asked

/-- The calls to the bus are answered in the order of the script. -/
structure CallsRight (p : Phase) (calls : List (Nat × Question)) (asked : List Nat)
    (rules : List String) : Prop where
  below : ∀ n ∈ asked, n < p.serial
  called : ∀ c ∈ calls, c.1 ∈ asked
  asking : ∀ n name, p.asks = some (n, name) → n ∈ asked
  serials : ∀ c ∈ calls, ∀ name, p.asks = some (c.1, name) → c.2 = .getNameOwner name
  order : ∃ answered, gatewayNames.flatMap follow =
      answered ++ calls.map Prod.snd ++ p.unwritten.filter Question.toBus ∧
    ∀ rule, .addMatch rule ∈ answered → rule ∈ rules
  nodup : p.todo.Nodup
  names : ∀ name, .getNameOwner name ∈ p.todo → name ∈ gatewayNames

/-- A name is followed from before it is asked for. -/
structure Ruled (p : Phase) (seen : List Delivery) (rules : List String) : Prop where
  told : ∀ name, lastChange name (p.inHand ++ changesIn seen) ≠ none → changesRule name ∈ rules
  known : ∀ name ∈ gatewayNames, p.Knows name → changesRule name ∈ rules
  answered : ∀ n name, p.asks = some (n, name) → ∀ d ∈ seen, d.arrival.fromBus →
    serialOf d.arrival.header = some n → changesRule name ∈ rules

/-- The signal in hand was put on the line when the owners were those recorded. -/
structure ReadRight (p : Phase) (o : Owners) : Prop where
  owned : Owned p.owners
  unknown : ∀ e ∈ p.owners, p.Knows e.1
  inHand : ∀ s m, p = .serving s → s.reader.signalled = some m → m.sender ≠ some busName →
    ∀ name ∈ gatewayNames, ownerIn s.owners name = o name
  peer : ∀ s m fds, p = .serving s → s.reader = .signal m fds → m.sender ≠ some busName
  checked : ∀ s m fds, p = .serving s → s.reader = .deliver m fds → m.sender ≠ some busName ∧
    fromOwner s m = true ∧ signalForwarded (m.path.getD "") (m.interface.getD "") = true

structure Following (w : World) : Prop where
  agrees : Agrees w.phase w.backlog w.line w.owners
  line : LineRight w.backlog w.line w.phase.serial w.asked
  calls : CallsRight w.phase w.calls w.asked w.rules
  ruled : Ruled w.phase (w.backlog ++ w.line) w.rules
  read : ReadRight w.phase w.lastRead

theorem changesIn_append (ds es : List Delivery) :
    changesIn (ds ++ es) = changesIn ds ++ changesIn es :=
  List.filterMap_append

theorem changesIn_singleton (d : Delivery) : changesIn [d] = (changeIn d.arrival).toList := by
  unfold changesIn
  cases h : changeIn d.arrival <;> simp [h]

/-- A signal is passed on by the thread that has it in hand. -/
theorem World.PassesOn.reader {cfg : Setup} {w w' : World} {a : Move} {m : Message}
    (hstep : World.step cfg w a = some w') (h : w.PassesOn w' m) :
    ∃ s fds, w.phase = .serving s ∧ s.reader = .deliver m fds := by
  obtain ⟨s, s', args, expose, out, hphase, hphase', hlog⟩ := h
  have hsame : w'.phase ≠ w.phase := by
    intro heq
    -- The phase would be the same, and with it the log that has grown.
    rw [hphase, hphase'] at heq
    cases heq
    simpa using congrArg List.length hlog
  cases a with
  | change name new m' =>
      simp only [World.step] at hstep
      split at hstep
      · cases hstep
        refine absurd ?_ hsame
        unfold World.changeOwner
        dsimp only
        split <;> rfl
      · cases hstep
  | answer m' =>
      simp only [World.step, World.answer] at hstep
      split at hstep
      · cases hstep
      · rename_i n q rest _
        split at hstep
        · cases hstep
          refine absurd ?_ hsame
          cases q <;> rfl
        · cases hstep
  | deliver arrival =>
      simp only [World.step] at hstep
      split at hstep
      · cases hstep
        exact absurd rfl hsame
      · cases hstep
  | ask sent => simp [World.step, World.ask, hphase] at hstep
  | hear => simp [World.step, World.hear, hphase] at hstep
  | breaks => simp [World.step, World.breaks, hphase] at hstep
  | receive =>
      -- What is received does not log anything.
      have hreceived : ∀ d : Delivery, receiveStep s d.arrival = some s' → False := by
        intro d hreceive
        unfold receiveStep at hreceive
        split at hreceive
        case h_2 => cases hreceive
        split at hreceive
        · cases hreceive
        simp only at hreceive
        split at hreceive
        · cases hreceive
          cases hlog
        · split at hreceive
          all_goals
            cases hreceive
            cases hlog
      simp only [World.step, World.receive, hphase] at hstep
      split at hstep
      · obtain ⟨r, hr, rfl⟩ := Option.map_eq_some_iff.mp hstep
        cases hphase'
        exact (hreceived _ hr).elim
      · obtain ⟨r, hr, rfl⟩ := Option.map_eq_some_iff.mp hstep
        cases hphase'
        exact (hreceived _ hr).elim
      · cases hstep
  | serve act =>
      have hgateway : Gateway.step cfg s act = some s' := by
        simp only [World.step, World.serve, hphase] at hstep
        split at hstep
        · cases hstep
        · obtain ⟨r, hr, rfl⟩ := Option.map_eq_some_iff.mp hstep
          cases hphase'
          exact hr
      obtain ⟨es, hes, hfrom⟩ := effect_log (step_effect hgateway)
      have hsingle : es = [.relayed m args expose out] := by
        rw [hlog] at hes
        exact (@List.append_cancel_right _ _ s.log _ hes).symm
      -- What is logged was just read from the place where it is passed on.
      obtain ⟨ch, fds, _, hreader⟩ := hfrom (.relayed m args expose out) (by rw [hsingle]; simp)
      exact ⟨s, fds, hphase, hreader⟩

theorem Following.ownersTrue {cfg : Setup} {w : World} (h : Following w) : OwnersTrue cfg w := by
  constructor
  · rintro s ⟨hphase, hrecv, hbacklog, hline⟩ name hname
    have hright := h.agrees.now name hname
    rw [hphase, hbacklog, hline] at hright
    have hnone : (Phase.serving s).inHand = [] := by simp [Phase.inHand, hrecv]
    exact hright.known (by simp [Phase.Knows, Phase.todo]) (by rw [hnone]; rfl)
  · intro a w' m hstep hpasses
    obtain ⟨s, fds, hphase, hreader⟩ := hpasses.reader hstep
    obtain ⟨hpeer, howner, hforwarded⟩ := h.read.checked s m fds hphase hreader
    refine ⟨?_, hforwarded⟩
    unfold fromOwner at howner
    cases hsender : m.sender with
    | none => simp [hsender] at howner
    | some n =>
        simp only [hsender, List.any_eq_true, beq_iff_eq] at howner
        obtain ⟨e, he, rfl⟩ := howner
        have howned : Owned s.owners := by simpa [hphase, Phase.owners] using h.read.owned
        have hname := howned.2 e he
        have hnow := h.read.inHand s m hphase (by rw [hreader]; rfl) hpeer e.1 hname
        rw [howned.ownerIn he] at hnow
        exact ⟨e.1, hname, by rw [← hnow]; rfl, hnow.symm⟩

/-! ## Section 7: A Message Is Put on the Line -/

section Put

variable {p : Phase} {backlog line : List Delivery} {o : Owners} {d : Delivery} {name : String}

theorem lastChange_put (seen : List Delivery) : lastChange name (p.inHand ++ changesIn (seen ++ [d])) =
    (lastChange name (changeIn d.arrival).toList).or (lastChange name (p.inHand ++ changesIn seen)) := by
  rw [changesIn_append, changesIn_singleton, ← List.append_assoc, lastChange_append]

/-- A message that tells no change is put on the line. -/
theorem Right.put (h : Right p (backlog ++ line) o name) (hsilent : changeIn d.arrival = none)
    (hanswers : ∀ n, p.asks = some (n, name) → d.arrival.fromBus →
      serialOf d.arrival.header = some n → ownerAnswered d.arrival = o name) :
    Right p (backlog ++ (line ++ [d])) o name := by
  have hlast : lastChange name (p.inHand ++ changesIn (backlog ++ (line ++ [d]))) =
      lastChange name (p.inHand ++ changesIn (backlog ++ line)) := by
    rw [← List.append_assoc, lastChange_put, hsilent]
    rfl
  constructor
  case told =>
    rw [hlast]
    exact h.told
  case known =>
    rw [hlast]
    exact h.known
  case answered =>
    rw [hlast]
    intro n hn hnone d' hd' hbus hserial
    rw [← List.append_assoc] at hd'
    rcases List.mem_append.mp hd' with hold | hnew
    · exact h.answered n hn hnone d' hold hbus hserial
    · obtain rfl := List.mem_singleton.mp hnew
      exact hanswers n hn hbus hserial

theorem Agrees.put (h : Agrees p backlog line o)
    (hright : ∀ name ∈ gatewayNames, Right p (backlog ++ (line ++ [d])) d.owners name) :
    Agrees p backlog (line ++ [d]) d.owners := by
  refine ⟨hright, ?_⟩
  intro before d' after hsplit
  rcases List.eq_nil_or_concat after with rfl | ⟨after', last, rfl⟩
  · obtain ⟨rfl, hd⟩ := List.append_inj' hsplit rfl
    cases hd
    exact hright
  · have hline : line = before ++ d' :: after' := by
      have hcut : line ++ [d] = (before ++ d' :: after') ++ [last] := by
        rw [hsplit]
        simp
      exact (List.append_inj' hcut rfl).1
    exact h.past before d' after' hline

theorem LineRight.put {serial : Nat} {asked : List Nat} (h : LineRight backlog line serial asked)
    (hsilent : changeIn d.arrival ≠ none → serialOf d.arrival.header = none)
    (hsent : d.arrival.fromBus → ∀ n, serialOf d.arrival.header = some n → n < serial)
    (hreplies : isReply d.arrival.header → d.arrival.fromBus = false →
      ∀ n, serialOf d.arrival.header = some n → n < serial ∧ n ∉ asked) :
    LineRight backlog (line ++ [d]) serial asked := by
  refine { kept := h.kept, silent := ?silent, sent := ?sent, replies := ?replies }
  case silent =>
    intro d' hd'
    rcases List.mem_append.mp hd' with hold | hnew
    · exact h.silent d' hold
    · obtain rfl := List.mem_singleton.mp hnew
      exact hsilent
  case sent =>
    intro d' hd'
    rw [← List.append_assoc] at hd'
    rcases List.mem_append.mp hd' with hold | hnew
    · exact h.sent d' hold
    · obtain rfl := List.mem_singleton.mp hnew
      exact hsent
  case replies =>
    intro d' hd'
    rcases List.mem_append.mp hd' with hold | hnew
    · exact h.replies d' hold
    · obtain rfl := List.mem_singleton.mp hnew
      exact hreplies

theorem Ruled.put {rules rules' : List String} (h : Ruled p (backlog ++ line) rules)
    (hrules : ∀ rule ∈ rules, rule ∈ rules')
    (htold : ∀ c, changeIn d.arrival = some c → changesRule c.1 ∈ rules')
    (hanswered : ∀ n name, p.asks = some (n, name) → d.arrival.fromBus →
      serialOf d.arrival.header = some n → changesRule name ∈ rules') :
    Ruled p (backlog ++ (line ++ [d])) rules' := by
  refine ⟨?_, fun name hname hknown => hrules _ (h.known name hname hknown), ?_⟩
  -- A change of the new message is the last one for its name.
  · intro name hsome
    rw [← List.append_assoc, lastChange_put] at hsome
    cases hchange : changeIn d.arrival with
    | none =>
        rw [hchange] at hsome
        exact hrules _ (h.told name hsome)
    | some c =>
        rw [hchange] at hsome
        by_cases heq : c.1 = name
        · exact heq ▸ htold c hchange
        · refine hrules _ (h.told name ?_)
          simpa [lastChange, heq] using hsome
  · intro n name hn d' hd' hbus hserial
    rw [← List.append_assoc] at hd'
    rcases List.mem_append.mp hd' with hold | hnew
    · exact hrules _ (h.answered n name hn d' hold hbus hserial)
    · obtain rfl := List.mem_singleton.mp hnew
      exact hanswered n name hn hbus hserial

/-- A change is told. -/
theorem Right.change (h : Right p (backlog ++ line) o name) {c : String × Option String}
    (hchange : changeIn d.arrival = some c) (hserial : serialOf d.arrival.header = none)
    (howners : d.owners = fun n => if n = c.1 then c.2 else o n) :
    Right p (backlog ++ (line ++ [d])) d.owners name := by
  -- The change that comes is the last one on the line.
  have hlast : lastChange name (p.inHand ++ changesIn (backlog ++ (line ++ [d]))) =
      (if c.1 = name then some c.2 else none).or
        (lastChange name (p.inHand ++ changesIn (backlog ++ line))) := by
    rw [← List.append_assoc, lastChange_put, hchange]
    rfl
  -- The change is of this name, or of another.
  by_cases hname : c.1 = name
  · have hnow : d.owners name = c.2 := by
      rw [howners]
      exact if_pos hname.symm
    have hsome : lastChange name (p.inHand ++ changesIn (backlog ++ (line ++ [d]))) = some c.2 := by
      rw [hlast, if_pos hname]
      rfl
    constructor
    case told =>
      rw [hsome]
      rintro v hv
      rw [hnow]
      exact (Option.some.inj hv).symm
    case known =>
      rw [hsome]
      exact fun _ hnone => by cases hnone
    case answered =>
      rw [hsome]
      exact fun _ _ hnone => by cases hnone
  · have hnow : d.owners name = o name := by
      rw [howners]
      exact if_neg (Ne.symm hname)
    rw [if_neg hname, Option.none_or] at hlast
    constructor
    case told =>
      rw [hlast, hnow]
      exact h.told
    case known =>
      rw [hlast, hnow]
      exact h.known
    case answered =>
      rw [hlast, hnow]
      intro n hn hnone d' hd' hbus hsome
      rw [← List.append_assoc] at hd'
      rcases List.mem_append.mp hd' with hold | hnew
      · exact h.answered n hn hnone d' hold hbus hsome
      · obtain rfl := List.mem_singleton.mp hnew
        rw [hserial] at hsome
        cases hsome

/-- The gateway has no rule for the name: it does not know the owner, nor has it asked. -/
theorem Right.unwatched {rules : List String} {c : String × Option String}
    (h : Right p (backlog ++ line) o name) (hruled : Ruled p (backlog ++ line) rules)
    (hname : name ∈ gatewayNames) (hrule : changesRule c.1 ∉ rules) :
    Right p (backlog ++ line) (fun n => if n = c.1 then c.2 else o n) name := by
  -- Without a rule for the name the bus tells nothing, so nothing is promised of it.
  by_cases heq : name = c.1
  · subst heq
    constructor
    case told =>
      intro v hv
      exact absurd (hruled.told _ (by rw [hv]; simp)) hrule
    case known =>
      intro hknown
      exact absurd (hruled.known _ hname hknown) hrule
    case answered =>
      intro n hn _ d hd hbus hserial
      exact absurd (hruled.answered n _ hn d hd hbus hserial) hrule
  · have hnow : (if name = c.1 then c.2 else o name) = o name := if_neg heq
    constructor
    case told =>
      rw [hnow]
      exact h.told
    case known =>
      rw [hnow]
      exact h.known
    case answered =>
      rw [hnow]
      exact h.answered

end Put

section Moves

variable {cfg : Setup} {w w' : World}

theorem following_change (h : Following w) {name : String} {new : Option String} {m : Message}
    (hchange : ownerChange m = some (name, new)) (hserial : serialOf m = none) :
    Following (w.changeOwner name new m) := by
  unfold World.changeOwner
  dsimp only
  split
  -- The bus tells the gateway, since the gateway has a rule for the name.
  · rename_i hrule
    have hrule : changesRule name ∈ w.rules := by simpa using hrule
    refine { agrees := ?agrees, line := ?line, calls := h.calls, ruled := ?ruled, read := h.read }
    case agrees =>
      exact h.agrees.put fun other hother => (h.agrees.now other hother).change hchange hserial rfl
    case line =>
      refine h.line.put (fun _ => hserial) ?_ ?_
      · intro _ n hn
        cases hserial.symm.trans hn
      · intro _ _ n hn
        cases hserial.symm.trans hn
    case ruled =>
      refine h.ruled.put (fun _ => id) ?_ ?_
      · intro c hc
        cases hchange.symm.trans hc
        exact hrule
      · intro n _ _ _ hn
        cases hserial.symm.trans hn
  -- The gateway is not told, so nothing comes on the line.
  · rename_i hrule
    have hrule : changesRule name ∉ w.rules := by simpa using hrule
    refine ⟨⟨?_, h.agrees.past⟩, h.line, h.calls, h.ruled, h.read⟩
    intro other hother
    exact (h.agrees.now other hother).unwatched (c := (name, new)) h.ruled hother hrule

theorem following_deliver (h : Following w) {a : Arrival} (hmay : w.mayDeliver a) :
    Following (w.putOnLine a) := by
  simp only [World.mayDeliver, Bool.and_eq_true, Bool.or_eq_true, Bool.not_eq_true'] at hmay
  obtain ⟨⟨_, hbus⟩, hserial⟩ := hmay
  -- Only what the bus sends changes an owner.
  have hsilent : changeIn a = none := by
    cases a with
    | undecodable u => rfl
    | message m fds =>
        rcases hbus with hpeer | ⟨_, hnone⟩
        · refine if_neg ?_
          rintro ⟨_, hsender, _⟩
          simp [Arrival.fromBus, Arrival.header, hsender] at hpeer
        · exact Option.isNone_iff_eq_none.mp hnone
  -- A message from the bus, or a reply, answers a call that was made before.
  have hsent : a.fromBus ∨ isReply a.header → ∀ n, serialOf a.header = some n →
      n < w.phase.serial ∧ n ∉ w.asked := by
    intro hfrom n hn
    rcases hserial with hno | hyes
    · rcases hfrom with hb | hr
      · simp [hb] at hno
      · simp [hr] at hno
    · rw [hn] at hyes
      simpa using hyes
  refine { agrees := ?agrees, line := ?line, calls := h.calls, ruled := ?ruled, read := h.read }
  case agrees =>
    refine h.agrees.put fun name hname => (h.agrees.now name hname).put hsilent ?_
    intro n hn hb hs
    exact absurd (h.calls.asking n name hn) (hsent (Or.inl hb) n hs).2
  case line =>
    refine h.line.put (fun hsome => absurd hsilent hsome) ?_ ?_
    · intro hb n hn
      exact (hsent (Or.inl hb) n hn).1
    · intro hr _ n hn
      exact hsent (Or.inr hr) n hn
  case ruled =>
    refine h.ruled.put (fun _ => id) ?_ ?_
    · intro c hc
      cases hsilent.symm.trans hc
    · intro n name hn hb hs
      exact absurd (h.calls.asking n name hn) (hsent (Or.inl hb) n hs).2

/-- A name's owner is asked for behind the rule for its changes. -/
theorem addMatch_mem_of_script {names : List String} {before after : List Question} {name : String}
    (h : names.flatMap follow = before ++ .getNameOwner name :: after) :
    .addMatch (changesRule name) ∈ before := by
  induction names generalizing before with
  | nil => simp at h
  | cons n names ih =>
      rw [List.flatMap_cons, follow] at h
      match before with
      | [] => cases h
      | [_] => cases h
      | [_, _] =>
          cases h
          simp
      | a :: b :: c :: before =>
          have hrest : names.flatMap follow = before ++ .getNameOwner name :: after := by
            simp only [List.cons_append, List.nil_append, List.cons.injEq] at h
            exact h.2.2.2
          exact List.mem_cons_of_mem _ (List.mem_cons_of_mem _ (List.mem_cons_of_mem _ (ih hrest)))

/-- The bus answers a call. -/
theorem following_answer (h : Following w) {m : Message} (hstep : w.answer m = some w') :
    Following w' ∧ w'.phase = w.phase := by
  unfold World.answer at hstep
  split at hstep
  · cases hstep
  rename_i n q rest hcalls
  split at hstep
  case isFalse => cases hstep
  rename_i hall
  obtain ⟨hsender, hreply, hserial, hanswers⟩ := hall
  have hmem : (n, q) ∈ w.calls := by rw [hcalls]; exact List.mem_cons_self
  have hasked : n ∈ w.asked := h.calls.called _ hmem
  -- An answer is no signal, so it changes no owner.
  have hsilent : changeIn (.message m []) = none := by
    refine ownerChange_of_kind ?_
    intro hkind
    simp [isReply, hkind, Kind.signal, Kind.methodReturn, Kind.error] at hreply
  -- The answer comes in the order of the script.
  obtain ⟨answered, horder, hrules⟩ := h.calls.order
  rw [hcalls] at horder
  have hrest : gatewayNames.flatMap follow =
      (answered ++ [q]) ++ rest.map Prod.snd ++ w.phase.unwritten.filter Question.toBus := by
    rw [horder]
    simp
  -- What is left to be answered is shorter by the one that is answered now.
  have hnew : ∀ rules, (∀ rule ∈ w.rules, rule ∈ rules) → (∀ rule, q = .addMatch rule → rule ∈ rules) →
      CallsRight w.phase rest w.asked rules := by
    intro rules hsub hadd
    refine {
      below := h.calls.below, called := ?called, asking := h.calls.asking, serials := ?serials,
      order := ⟨answered ++ [q], hrest, ?order⟩, nodup := h.calls.nodup, names := h.calls.names }
    case called =>
      intro c hc
      exact h.calls.called c (by rw [hcalls]; exact List.mem_cons_of_mem _ hc)
    case serials =>
      intro c hc
      exact h.calls.serials c (by rw [hcalls]; exact List.mem_cons_of_mem _ hc)
    case order =>
      intro rule hrule
      rcases List.mem_append.mp hrule with hold | hlast
      · exact hsub rule (hrules rule hold)
      · exact hadd rule (List.mem_singleton.mp hlast).symm
  -- The serial that waits is the one of this question.
  have hsame : ∀ name, w.phase.asks = some (n, name) → q = .getNameOwner name := fun name hn =>
    h.calls.serials _ hmem name hn
  have hput : ∀ rules, (∀ rule ∈ w.rules, rule ∈ rules) → (∀ rule, q = .addMatch rule → rule ∈ rules) →
      Following { (w.putOnLine (.message m [])) with calls := rest, rules := rules } := by
    intro rules hsub hadd
    refine {
      agrees := ?agrees, line := ?line, calls := hnew rules hsub hadd, ruled := ?ruled,
      read := h.read }
    case agrees =>
      refine h.agrees.put fun name hname => (h.agrees.now name hname).put hsilent ?_
      intro n' hn' _ hs
      obtain rfl : n = n' := Option.some.inj (hserial.symm.trans hs)
      have hq := hsame name hn'
      rw [hq] at hanswers
      simp only [World.answers] at hanswers
      simp only [ownerAnswered, callResult]
      -- The answer tells of the owner of right now.
      split at hanswers
      · rename_i hkind
        obtain ⟨_, htold⟩ : (w.owners name).isSome ∧ ownerTold m = w.owners name := by
          simpa using hanswers
        rw [if_neg (by rw [hkind]; decide)]
        exact htold
      · rename_i hkind
        have herror : m.kind = Kind.error := by
          simpa [isReply, hkind] using hreply
        -- An error says that there is none.
        rw [if_pos herror]
        simpa using (eq_of_beq hanswers).symm
    case line =>
      refine h.line.put (fun hsome => absurd hsilent hsome) ?_ ?_
      · intro _ n' hn'
        obtain rfl : n = n' := Option.some.inj (hserial.symm.trans hn')
        exact h.calls.below n hasked
      · intro _ hpeer
        simp [Arrival.fromBus, Arrival.header, hsender] at hpeer
    case ruled =>
      refine h.ruled.put hsub ?_ ?_
      · intro c hc
        cases hsilent.symm.trans hc
      · intro n' name hn' _ hs
        obtain rfl : n = n' := Option.some.inj (hserial.symm.trans hs)
        have hq := hsame name hn'
        have hscript : gatewayNames.flatMap follow = answered ++ .getNameOwner name ::
            (rest.map Prod.snd ++ w.phase.unwritten.filter Question.toBus) := by
          rw [horder, hq]
          simp
        exact hsub _ (hrules _ (addMatch_mem_of_script hscript))
  -- Each kind of question has its own effect on the bus.
  cases q with
  | addMatch rule =>
      cases hstep
      refine ⟨hput (rule :: w.rules) (fun _ => List.mem_cons_of_mem _) ?_, rfl⟩
      intro rule' heq
      cases heq
      exact List.mem_cons_self
  | getNameOwner name =>
      cases hstep
      exact ⟨hput w.rules (fun _ => id) (fun _ heq => by cases heq), rfl⟩
  | register app =>
      cases hstep
      exact ⟨hput w.rules (fun _ => id) (fun _ heq => by cases heq), rfl⟩

/-! ## Section 8: The Setup Goes On -/

section Next

variable {u : SettingUp} {o : Owners}

theorem next_cases (u : SettingUp) :
    u.next = .settingUp u ∨
      (u.todo = [] ∧ u.next = .serving (initial u.serial u.appId u.owner u.owners u.log)) := by
  unfold SettingUp.next
  cases htodo : u.todo with
  | nil => exact Or.inr ⟨rfl, rfl⟩
  | cons q rest => exact Or.inl rfl

theorem next_owners : u.next.owners = u.owners := by
  rcases next_cases u with h | ⟨_, h⟩ <;> rw [h] <;> rfl

theorem next_serial : u.next.serial = u.serial := by
  rcases next_cases u with h | ⟨_, h⟩ <;> rw [h] <;> rfl

theorem next_todo : u.next.todo = u.todo := by
  rcases next_cases u with h | ⟨htodo, h⟩ <;> rw [h]
  · rfl
  · exact htodo.symm

theorem next_inHand : u.next.inHand = [] := by
  rcases next_cases u with h | ⟨_, h⟩ <;> rw [h] <;> rfl

theorem next_asks (hwaiting : u.waiting = none) : u.next.asks = none := by
  rcases next_cases u with h | ⟨_, h⟩
  · rw [h]
    simp only [Phase.asks, hwaiting]
  · rw [h]
    rfl

theorem next_unwritten (hwaiting : u.waiting = none) : u.next.unwritten = u.todo := by
  rcases next_cases u with h | ⟨htodo, h⟩
  · rw [h]
    exact if_neg (by simp [hwaiting])
  · rw [h, htodo]
    rfl

theorem next_signalled {s : Client} (h : u.next = .serving s) : s.reader.signalled = none := by
  rcases next_cases u with hnext | ⟨_, hnext⟩
  · cases hnext.symm.trans h
  · cases hnext.symm.trans h
    rfl

end Next

/-- A call of the setup has ended. `gone` is what was read for it: nothing, or a message that
tells no change. -/
theorem following_next {u u' : SettingUp} {gone line : List Delivery} {o : Owners} (h : Following w)
    (hphase : w.phase = .settingUp u) (hline : w.line = gone ++ line)
    (hsilent : changesIn gone = []) (hwaiting : u'.waiting = none) (hserial : u.serial ≤ u'.serial)
    (htodo : u'.todo.Sublist u.todo)
    (hwritten : u'.todo.filter Question.toBus = w.phase.unwritten.filter Question.toBus)
    (howned : Owned u'.owners) (hunknown : ∀ e ∈ u'.owners, .getNameOwner e.1 ∉ u'.todo)
    (hknown : ∀ name ∈ gatewayNames, .getNameOwner name ∉ u'.todo →
      (.getNameOwner name ∉ u.todo ∧ ownerIn u'.owners name = ownerIn u.owners name) ∨
        ∃ n, w.phase.asks = some (n, name) ∧ ∃ d ∈ gone, d.arrival.fromBus ∧
          serialOf d.arrival.header = some n ∧ ownerIn u'.owners name = ownerAnswered d.arrival) :
    Following { w with line := line, phase := u'.next, lastRead := o } := by
  -- What is read away told of nothing, so what agreed still agrees.
  have hright : ∀ name ∈ gatewayNames, ∀ seen o, Right w.phase (w.backlog ++ (gone ++ seen)) o name →
      Right u'.next (w.backlog ++ seen) o name := by
    intro name hname seen o hold
    have hlast : lastChange name (u'.next.inHand ++ changesIn (w.backlog ++ seen)) =
        lastChange name (w.phase.inHand ++ changesIn (w.backlog ++ (gone ++ seen))) := by
      have hnone : w.phase.inHand = [] := by rw [hphase]; rfl
      rw [next_inHand, hnone, changesIn_append, changesIn_append, changesIn_append, hsilent]
      rfl
    constructor
    case told =>
      rw [hlast]
      exact hold.told
    case known =>
      rw [hlast, next_owners]
      intro hknows hnone
      rw [Phase.Knows, next_todo] at hknows
      -- The name was known before, or the answer to the question just read tells it.
      rcases hknown name hname hknows with ⟨hbefore, hsame⟩ | ⟨n, hn, d, hd, hbus, hs, hanswer⟩
      · rw [hsame]
        have hthere := hold.known (by rw [hphase]; exact hbefore) hnone
        rw [hphase] at hthere
        exact hthere
      · rw [hanswer]
        exact hold.answered n hn hnone d (by simp [hd]) hbus hs
    case answered =>
      rw [next_asks hwaiting]
      exact fun _ hn => by cases hn
  refine {
    agrees := { now := ?agreesNow, past := ?agreesPast },
    line := {
      kept := h.line.kept, silent := ?lineSilent, sent := ?lineSent, replies := ?lineReplies },
    calls := {
      below := ?callsBelow, called := h.calls.called, asking := ?callsAsking,
      serials := ?callsSerials, order := ?callsOrder, nodup := ?callsNodup, names := ?callsNames },
    ruled := { told := ?ruledTold, known := ?ruledKnown, answered := ?ruledAnswered },
    read := {
      owned := ?readOwned, unknown := ?readUnknown, inHand := ?readInHand, peer := ?readPeer,
      checked := ?readChecked } }
  case agreesNow =>
    intro name hname
    refine hright name hname line _ ?_
    rw [← hline]
    exact h.agrees.now name hname
  case agreesPast =>
    intro before d after hsplit name hname
    -- What is left of the line is the end of it.
    refine hright name hname (before ++ [d]) _ ?_
    rw [← List.append_assoc gone before [d]]
    refine h.agrees.past (gone ++ before) d after ?_ name hname
    replace hsplit : line = before ++ d :: after := hsplit
    rw [hline, hsplit, List.append_assoc]
  case lineSilent =>
    intro d hd
    exact h.line.silent d (by rw [hline]; exact List.mem_append_right _ hd)
  case lineSent =>
    intro d hd hbus n hn
    rw [next_serial]
    refine Nat.lt_of_lt_of_le (h.line.sent d ?_ hbus n hn) (by rw [hphase]; exact hserial)
    rcases List.mem_append.mp hd with hb | hl
    · exact List.mem_append_left _ hb
    · rw [hline]
      exact List.mem_append_right _ (List.mem_append_right _ hl)
  case lineReplies =>
    intro d hd hreply hbus n hn
    obtain ⟨hlt, hnot⟩ :=
      h.line.replies d (by rw [hline]; exact List.mem_append_right _ hd) hreply hbus n hn
    rw [next_serial]
    exact ⟨Nat.lt_of_lt_of_le hlt (by rw [hphase]; exact hserial), hnot⟩
  case callsBelow =>
    intro n hn
    rw [next_serial]
    exact Nat.lt_of_lt_of_le (h.calls.below n hn) (by rw [hphase]; exact hserial)
  case callsAsking =>
    rw [next_asks hwaiting]
    exact fun _ _ hn => by cases hn
  case callsSerials =>
    rw [next_asks hwaiting]
    exact fun _ _ _ hn => by cases hn
  case callsOrder =>
    rw [next_unwritten hwaiting, hwritten]
    exact h.calls.order
  case callsNodup =>
    rw [next_todo]
    have hnodup := h.calls.nodup
    rw [hphase] at hnodup
    exact htodo.nodup hnodup
  case callsNames =>
    rw [next_todo]
    intro name hname
    exact h.calls.names name (by rw [hphase]; exact htodo.subset hname)
  case ruledTold =>
    intro name hsome
    -- Nothing is in hand while the connection is set up.
    refine h.ruled.told name ?_
    have hnone : w.phase.inHand = [] := by rw [hphase]; rfl
    rw [next_inHand, changesIn_append] at hsome
    rw [hnone, hline, changesIn_append, changesIn_append, hsilent]
    exact hsome
  case ruledKnown =>
    intro name hname hknows
    rw [Phase.Knows, next_todo] at hknows
    rcases hknown name hname hknows with ⟨hbefore, _⟩ | ⟨n, hn, d, hd, hbus, hs, _⟩
    · exact h.ruled.known name hname (by rw [hphase]; exact hbefore)
    · refine h.ruled.answered n name hn d ?_ hbus hs
      rw [hline]
      simp [hd]
  case ruledAnswered =>
    rw [next_asks hwaiting]
    exact fun _ _ hn => by cases hn
  case readOwned =>
    rw [next_owners]
    exact howned
  case readUnknown =>
    rw [next_owners]
    intro e he
    rw [Phase.Knows, next_todo]
    exact hunknown e he
  case readInHand =>
    intro s m hs hm
    rw [next_signalled hs] at hm
    cases hm
  case readPeer =>
    intro s m fds hs hm
    have hnone := next_signalled hs
    rw [hm] at hnone
    cases hnone
  case readChecked =>
    intro s m fds hs hm
    have hnone := next_signalled hs
    rw [hm] at hnone
    cases hnone

/-- How the phase goes on from a call of the setup that ended. -/
theorem finish_cases {u : SettingUp} {q : Question} {rest : List Question} (r : Received) :
    u.finish q rest r = .failed ∨ ∃ u' : SettingUp, u.finish q rest r = u'.next ∧ u'.todo = rest ∧
      u'.waiting = none ∧ u'.serial = u.serial ∧
      ((u'.owners = u.owners ∧ ∀ name, q = .getNameOwner name → ∀ reply fds, r = .ok (reply, fds) →
          ownerTold reply = none) ∨
        ∃ name owner reply fds, q = .getNameOwner name ∧ r = .ok (reply, fds) ∧
          ownerTold reply = some owner ∧ u'.owners = (name, owner) :: u.owners) := by
  -- By the kind of question; only that for an owner changes one.
  cases q with
  | register app =>
      cases r with
      | ok reply => exact Or.inr ⟨_, rfl, rfl, rfl, rfl, Or.inl ⟨rfl, fun _ hq => by cases hq⟩⟩
      | error e => exact Or.inr ⟨_, rfl, rfl, rfl, rfl, Or.inl ⟨rfl, fun _ hq => by cases hq⟩⟩
  | addMatch rule =>
      -- A rule that the bus refuses ends the setup.
      cases r with
      | ok reply => exact Or.inr ⟨_, rfl, rfl, rfl, rfl, Or.inl ⟨rfl, fun _ hq => by cases hq⟩⟩
      | error e => exact Or.inl rfl
  | getNameOwner name =>
      cases r with
      | error e =>
          exact Or.inr ⟨_, rfl, rfl, rfl, rfl, Or.inl ⟨rfl, fun _ _ _ _ hr => by cases hr⟩⟩
      | ok reply =>
          obtain ⟨reply, fds⟩ := reply
          cases htold : ownerTold reply with
          | none =>
              refine Or.inr ⟨{ u with todo := rest, waiting := none }, ?_, rfl, rfl, rfl,
                Or.inl ⟨rfl, ?_⟩⟩
              · simp only [SettingUp.finish, htold]
              · intro name' _ reply' fds' hr
                cases hr
                exact htold
          | some owner =>
              refine Or.inr ⟨{ u with todo := rest, waiting := none, owners := (name, owner) :: u.owners },
                ?_, rfl, rfl, rfl, Or.inr ⟨name, owner, reply, fds, rfl, rfl, htold, rfl⟩⟩
              simp only [SettingUp.finish, htold]

/-- The owner that a call returned, if any. -/
def toldIn (r : Received) : Option String :=
  match r with
  | .ok (reply, _) => ownerTold reply
  | .error _ => none

theorem following_finish {u u₀ : SettingUp} {q : Question} {rest : List Question} {r : Received}
    {gone line : List Delivery} {o : Owners} (h : Following w) (hphase : w.phase = .settingUp u)
    (htodo : u.todo = q :: rest) (howners : u₀.owners = u.owners) (hserial : u.serial ≤ u₀.serial)
    (hwritten : rest.filter Question.toBus = w.phase.unwritten.filter Question.toBus)
    (hline : w.line = gone ++ line) (hsilent : changesIn gone = [])
    (hanswer : ∀ name, q = .getNameOwner name → ∃ n, w.phase.asks = some (n, name) ∧
      ∃ d ∈ gone, d.arrival.fromBus ∧ serialOf d.arrival.header = some n ∧
        toldIn r = ownerAnswered d.arrival) :
    u₀.finish q rest r = .failed ∨
      Following { w with line := line, phase := u₀.finish q rest r, lastRead := o } := by
  have hread := h.read
  have hnodup := h.calls.nodup
  have hnames := h.calls.names
  rw [hphase] at hread hnodup hnames
  replace hnodup : (q :: rest).Nodup := htodo ▸ hnodup
  have howned : Owned u.owners := hread.owned
  -- A name that has an owner in the book was asked for already.
  have hknows : ∀ e ∈ u.owners, .getNameOwner e.1 ∉ q :: rest := by
    intro e he
    rw [← htodo]
    exact hread.unknown e he
  -- A name that is asked for has no owner yet.
  have hfresh : ∀ name, q = .getNameOwner name → ∀ e ∈ u.owners, e.1 ≠ name := by
    rintro name hq e he rfl
    exact hknows e he (hq ▸ List.mem_cons_self)
  rcases @finish_cases u₀ q rest r with hfailed | ⟨u', hnext, hrest, hw, hs, htold⟩
  · exact Or.inl hfailed
  refine Or.inr ?_
  rw [hnext]
  refine following_next h hphase hline hsilent hw (by rw [hs]; exact hserial) ?_ ?_ ?_ ?_ ?_
  · rw [hrest, htodo]
    exact List.sublist_cons_self q rest
  · rw [hrest]
    exact hwritten
  · rcases htold with ⟨hsame, _⟩ | ⟨name, owner, _, _, hq, _, _, hcons⟩
    · rw [hsame, howners]
      exact howned
    · rw [hcons, howners]
      -- The name is new in the book.
      refine ⟨List.nodup_cons.mpr ⟨?_, howned.1⟩, ?_⟩
      · intro hin
        obtain ⟨e, he, heq⟩ := List.mem_map.mp hin
        exact hfresh name hq e he heq
      · intro e he
        rcases List.mem_cons.mp he with rfl | hold
        · refine hnames name ?_
          rw [← hq]
          show q ∈ u.todo
          rw [htodo]
          exact List.mem_cons_self
        · exact howned.2 e hold
  · rw [hrest]
    rcases htold with ⟨hsame, _⟩ | ⟨name, owner, _, _, hq, _, _, hcons⟩
    · rw [hsame, howners]
      exact fun e he hin => hknows e he (List.mem_cons_of_mem _ hin)
    · rw [hcons, howners]
      intro e he
      rcases List.mem_cons.mp he with rfl | hold
      · rw [← hq]
        exact (List.nodup_cons.mp hnodup).1
      · exact fun hin => hknows e hold (List.mem_cons_of_mem _ hin)
  · intro name _ hnot
    rw [hrest] at hnot
    -- The name of this question, or one that was asked for before.
    by_cases hq : q = .getNameOwner name
    · obtain ⟨n, hn, d, hd, hbus, hsd, hr⟩ := hanswer name hq
      refine Or.inr ⟨n, hn, d, hd, hbus, hsd, ?_⟩
      rw [← hr]
      -- No owner was told, or the one that is put in the book.
      rcases htold with ⟨hsame, hnone⟩ | ⟨name', owner, reply, fds, hq', rfl, htold, hcons⟩
      · have hno : ownerIn u.owners name = none := by
          unfold ownerIn
          rw [List.find?_eq_none.mpr]
          · rfl
          · intro e he
            simpa using hfresh name hq e he
        rw [hsame, howners, hno]
        cases r with
        | error e => rfl
        | ok reply => exact (hnone name hq reply.1 reply.2 rfl).symm
      · cases hq.symm.trans hq'
        rw [hcons, ownerIn_cons, if_pos rfl]
        exact htold.symm
    · refine Or.inl ⟨?_, ?_⟩
      · rw [htodo]
        intro hin
        rcases List.mem_cons.mp hin with heq | hin
        · exact hq heq.symm
        · exact hnot hin
      · rcases htold with ⟨hsame, _⟩ | ⟨name', owner, _, _, hq', _, _, hcons⟩
        · rw [hsame, howners]
        · rw [hcons, ownerIn_cons, howners, if_neg]
          rintro rfl
          exact hq hq'

theorem asks_settingUp (u : SettingUp) : (Phase.settingUp u).asks =
    match u.waiting, u.todo.head? with
    | some n, some (.getNameOwner name) => some (n, name)
    | _, _ => none := rfl

/-- The next call is written. -/
theorem following_asked {u : SettingUp} {q : Question} {rest : List Question} (h : Following w)
    (hphase : w.phase = .settingUp u) (hwaiting : u.waiting = none) (htodo : u.todo = q :: rest) :
    Following { w with
      phase := .settingUp { u with waiting := some u.serial, serial := u.serial + 1 }
      calls := if q.toBus then w.calls ++ [(u.serial, q)] else w.calls
      asked := if q.toBus then u.serial :: w.asked else w.asked } := by
  obtain ⟨hagrees, hline, hcalls, hruled, hread⟩ := h
  rw [hphase] at hagrees hline hcalls hruled hread
  -- Only a question for an owner waits for one.
  have hasks : ∀ n name, (Phase.settingUp
      { u with waiting := some u.serial, serial := u.serial + 1 }).asks = some (n, name) →
      n = u.serial ∧ q = .getNameOwner name := by
    intro n name hn
    rw [asks_settingUp, htodo] at hn
    cases q with
    | getNameOwner name' =>
        cases hn
        exact ⟨rfl, rfl⟩
    | register app => cases hn
    | addMatch rule => cases hn
  -- Nothing on the line has the new serial.
  have hnew : ∀ d ∈ w.backlog ++ w.line, d.arrival.fromBus →
      serialOf d.arrival.header ≠ some u.serial := by
    intro d hd hbus hn
    exact Nat.lt_irrefl _ (hline.sent d hd hbus u.serial hn)
  -- What was on the line before the call has none of its serial.
  have hright : ∀ name seen o, (∀ d ∈ seen, d ∈ w.backlog ++ w.line) →
      Right (.settingUp u) seen o name →
      Right (.settingUp { u with waiting := some u.serial, serial := u.serial + 1 }) seen o name := by
    intro name seen o hsub hold
    refine ⟨hold.told, hold.known, ?_⟩
    intro n hn _ d hd hbus hs
    rw [(hasks n name hn).1] at hs
    exact absurd hs (hnew d (hsub d hd) hbus)
  obtain ⟨answered, horder, hrules⟩ := hcalls.order
  have hunwritten : (Phase.settingUp u).unwritten = q :: rest := by
    rw [← htodo]
    exact if_neg (by simp [hwaiting])
  have hasked : ∀ n ∈ if q.toBus then u.serial :: w.asked else w.asked, n = u.serial ∨ n ∈ w.asked := by
    intro n hn
    split at hn
    · exact List.mem_cons.mp hn
    · exact Or.inr hn
  refine {
    agrees := { now := ?now, past := ?past },
    line := { kept := hline.kept, silent := hline.silent, sent := ?sent, replies := ?replies },
    calls := {
      below := ?below, called := ?called, asking := ?asking, serials := ?serials,
      order := ⟨answered, ?order, hrules⟩, nodup := hcalls.nodup, names := hcalls.names },
    ruled := { told := hruled.told, known := hruled.known, answered := ?answered },
    read := {
      owned := hread.owned, unknown := hread.unknown, inHand := ?inHand, peer := ?peer,
      checked := ?checked } }
  case now =>
    intro name hname
    exact hright name _ _ (fun _ => id) (hagrees.now name hname)
  case past =>
    intro before d after hsplit name hname
    replace hsplit : w.line = before ++ d :: after := hsplit
    refine hright name _ _ ?_ (hagrees.past before d after hsplit name hname)
    intro d' hd'
    rw [hsplit]
    rcases List.mem_append.mp hd' with hb | hl
    · exact List.mem_append_left _ hb
    · refine List.mem_append_right _ ?_
      rcases List.mem_append.mp hl with hbefore | hd
      · exact List.mem_append_left _ hbefore
      · exact List.mem_append_right _ (by simp [List.mem_singleton.mp hd])
  case sent =>
    intro d hd hbus n hn
    exact Nat.lt_succ_of_lt (hline.sent d hd hbus n hn)
  case replies =>
    intro d hd hreply hbus n hn
    obtain ⟨hlt, hnot⟩ := hline.replies d hd hreply hbus n hn
    refine ⟨Nat.lt_succ_of_lt hlt, ?_⟩
    intro hin
    -- The new serial is greater than all on the line.
    rcases hasked n hin with rfl | hold
    · exact Nat.lt_irrefl _ hlt
    · exact hnot hold
  case below =>
    intro n hn
    rcases hasked n hn with rfl | hold
    · exact Nat.lt_succ_self _
    · exact Nat.lt_succ_of_lt (hcalls.below n hold)
  case called =>
    intro c hc
    show c.1 ∈ if q.toBus then _ else _
    replace hc : c ∈ if q.toBus then _ else _ := hc
    split at hc
    -- A call to the bus is noted as asked, one to the portal is not.
    · rename_i hbus
      rw [if_pos hbus]
      rcases List.mem_append.mp hc with hold | hlast
      · exact List.mem_cons_of_mem _ (hcalls.called c hold)
      · rw [List.mem_singleton.mp hlast]
        exact List.mem_cons_self
    · rename_i hbus
      rw [if_neg hbus]
      exact hcalls.called c hc
  case asking =>
    intro n name hn
    obtain ⟨rfl, rfl⟩ := hasks n name hn
    exact List.mem_cons_self
  case serials =>
    intro c hc name hn
    obtain ⟨hserial, hq⟩ := hasks _ name hn
    replace hc : c ∈ if q.toBus then _ else _ := hc
    rw [if_pos (by rw [hq]; rfl)] at hc
    -- The new call's serial is none of the earlier ones.
    rcases List.mem_append.mp hc with hold | hlast
    · have hlt := hcalls.below _ (hcalls.called c hold)
      rw [hserial] at hlt
      exact absurd hlt (Nat.lt_irrefl _)
    · rw [List.mem_singleton.mp hlast]
      exact hq
  case order =>
    have hafter : (Phase.settingUp
        { u with waiting := some u.serial, serial := u.serial + 1 }).unwritten = rest := by
      show (if (some u.serial).isSome then u.todo.tail else u.todo) = rest
      rw [htodo]
      rfl
    rw [hunwritten] at horder
    rw [hafter, horder]
    show _ = answered ++ List.map Prod.snd (if q.toBus then _ else _) ++ _
    cases hbus : q.toBus with
    | true =>
        rw [if_pos rfl, List.filter_cons_of_pos hbus]
        simp
    | false =>
        rw [if_neg (by simp), List.filter_cons_of_neg (by simp [hbus])]
  case answered =>
    intro n name hn d hd hbus hs
    rw [(hasks n name hn).1] at hs
    exact absurd hs (hnew d hd hbus)
  case inHand =>
    exact fun s m hs => by cases hs
  case peer =>
    exact fun s m fds hs => by cases hs
  case checked =>
    exact fun s m fds hs => by cases hs

theorem asksOwner_of_todo {u : SettingUp} {name : String} {rest : List Question}
    (hphase : w.phase = .settingUp u) (htodo : u.todo = .getNameOwner name :: rest) :
    w.asksOwner = true := by
  simp [World.asksOwner, hphase, htodo]

theorem following_ask (h : Following w) {sent : Bool} (hclean : w.TakesAnswer (.ask sent))
    (hstep : w.ask sent = some w') : w'.phase = .failed ∨ Following w' := by
  unfold World.ask at hstep
  split at hstep
  case h_2 => cases hstep
  rename_i u hphase
  split at hstep
  case h_2 => cases hstep
  rename_i q rest hwaiting htodo
  split at hstep
  · have hasked := following_asked h hphase hwaiting htodo
    dsimp only at hstep
    split at hstep
    · rename_i hbus
      rw [if_pos hbus, if_pos hbus] at hasked
      cases hstep
      exact Or.inr hasked
    · rename_i hbus
      rw [if_neg hbus, if_neg hbus] at hasked
      cases hstep
      exact Or.inr hasked
  · rename_i hsent
    cases hstep
    have hnot : ∀ name, q ≠ .getNameOwner name := by
      rintro name rfl
      exact hsent (hclean (asksOwner_of_todo hphase htodo))
    cases q with
    | getNameOwner name => exact absurd rfl (hnot name)
    | addMatch rule => exact Or.inl rfl
    | register app =>
        refine @following_finish w u { u with serial := u.serial + 1 } (.register app) rest
          (.error .broken) [] w.line w.lastRead h hphase htodo rfl (Nat.le_succ _) ?_ rfl rfl ?_
        · have hunwritten : w.phase.unwritten = .register app :: rest := by
            rw [hphase, ← htodo]
            exact if_neg (by simp [hwaiting])
          rw [hunwritten, List.filter_cons_of_neg (by simp [Question.toBus])]
        · intro name hq
          cases hq

/-- A message that is kept is behind the others of the backlog. -/
theorem following_kept {u : SettingUp} {d : Delivery} {line : List Delivery} (h : Following w)
    (hphase : w.phase = .settingUp u) (hline : w.line = d :: line) (hbus : d.arrival.fromBus) :
    Following { w with line := line, backlog := w.backlog ++ [d], lastRead := d.owners } := by
  obtain ⟨hagrees, hlines, hcalls, hruled, hread⟩ := h
  rw [hline] at hagrees hlines hruled
  have hmove : ∀ seen, w.backlog ++ [d] ++ seen = w.backlog ++ (d :: seen) := by simp
  refine {
    agrees := { now := ?now, past := ?past },
    line := { kept := ?kept, silent := ?silent, sent := ?sent, replies := ?replies },
    calls := hcalls, ruled := ?ruled,
    read := {
      owned := hread.owned, unknown := hread.unknown, inHand := ?inHand, peer := ?peer,
      checked := ?checked } }
  case now =>
    intro name hname
    show Right w.phase (w.backlog ++ [d] ++ line) w.owners name
    rw [hmove]
    exact hagrees.now name hname
  case past =>
    intro before d' after hsplit name hname
    show Right w.phase (w.backlog ++ [d] ++ (before ++ [d'])) d'.owners name
    rw [hmove]
    refine hagrees.past (d :: before) d' after ?_ name hname
    rw [show line = before ++ d' :: after from hsplit]
    rfl
  case kept =>
    intro d' hd'
    rcases List.mem_append.mp hd' with hold | hnew
    · exact hlines.kept d' hold
    · rw [List.mem_singleton.mp hnew]
      exact hbus
  case silent =>
    intro d' hd'
    exact hlines.silent d' (List.mem_cons_of_mem _ hd')
  case sent =>
    intro d' hd'
    replace hd' : d' ∈ w.backlog ++ [d] ++ line := hd'
    rw [hmove] at hd'
    exact hlines.sent d' hd'
  case replies =>
    intro d' hd'
    exact hlines.replies d' (List.mem_cons_of_mem _ hd')
  case ruled =>
    show Ruled w.phase (w.backlog ++ [d] ++ line) w.rules
    rw [hmove]
    exact hruled
  case inHand =>
    intro s m hs
    cases hphase.symm.trans hs
  case peer =>
    intro s m fds hs
    cases hphase.symm.trans hs
  case checked =>
    intro s m fds hs
    cases hphase.symm.trans hs

/-- A message that is dropped told no change. -/
theorem following_dropped {u : SettingUp} {d : Delivery} {line : List Delivery} (h : Following w)
    (hphase : w.phase = .settingUp u) (hline : w.line = d :: line)
    (hsilent : changeIn d.arrival = none) :
    Following { w with line := line, lastRead := d.owners } := by
  obtain ⟨hagrees, hlines, hcalls, hruled, hread⟩ := h
  rw [hline] at hagrees hlines hruled
  have hchanges : ∀ seen, changesIn (w.backlog ++ (d :: seen)) = changesIn (w.backlog ++ seen) := by
    intro seen
    show changesIn (w.backlog ++ ([d] ++ seen)) = _
    rw [changesIn_append, changesIn_append, changesIn_append, changesIn_singleton, hsilent]
    rfl
  have hsub : ∀ seen, ∀ d' ∈ w.backlog ++ seen, d' ∈ w.backlog ++ (d :: seen) := by
    intro seen d' hd'
    rcases List.mem_append.mp hd' with hb | hl
    · exact List.mem_append_left _ hb
    · exact List.mem_append_right _ (List.mem_cons_of_mem _ hl)
  have hright : ∀ name seen o, Right w.phase (w.backlog ++ (d :: seen)) o name →
      Right w.phase (w.backlog ++ seen) o name := by
    intro name seen o hold
    constructor
    case told =>
      rw [← hchanges]
      exact hold.told
    case known =>
      rw [← hchanges]
      exact hold.known
    case answered =>
      rw [← hchanges]
      exact fun n hn hnone d' hd' => hold.answered n hn hnone d' (hsub seen d' hd')
  refine {
    agrees := { now := ?agreesNow, past := ?agreesPast },
    line := {
      kept := hlines.kept, silent := ?lineSilent, sent := ?lineSent, replies := ?lineReplies },
    calls := hcalls,
    ruled := { told := ?ruledTold, known := hruled.known, answered := ?ruledAnswered },
    read := {
      owned := hread.owned, unknown := hread.unknown, inHand := ?readInHand, peer := ?readPeer,
      checked := ?readChecked } }
  case agreesNow =>
    intro name hname
    exact hright name line _ (hagrees.now name hname)
  case agreesPast =>
    intro before d' after hsplit name hname
    refine hright name (before ++ [d']) _ (hagrees.past (d :: before) d' after ?_ name hname)
    rw [show line = before ++ d' :: after from hsplit]
    rfl
  case lineSilent =>
    intro d' hd'
    exact hlines.silent d' (List.mem_cons_of_mem _ hd')
  case lineSent =>
    intro d' hd'
    exact hlines.sent d' (hsub line d' hd')
  case lineReplies =>
    intro d' hd'
    exact hlines.replies d' (List.mem_cons_of_mem _ hd')
  case ruledTold =>
    intro name hsome
    refine hruled.told name ?_
    rw [hchanges]
    exact hsome
  case ruledAnswered =>
    intro n name hn d' hd'
    exact hruled.answered n name hn d' (hsub line d' hd')
  case readInHand =>
    intro s m hs
    cases hphase.symm.trans hs
  case readPeer =>
    intro s m fds hs
    cases hphase.symm.trans hs
  case readChecked =>
    intro s m fds hs
    cases hphase.symm.trans hs

theorem following_hear (h : Following w) (hclean : w.TakesAnswer .hear) (hstep : w.hear = some w') :
    w'.phase = .failed ∨ Following w' := by
  unfold World.hear at hstep
  split at hstep
  case h_2 => cases hstep
  rename_i u hphase
  split at hstep
  case h_2 => cases hstep
  rename_i n q rest d line hwaiting htodo hline
  have hd : d ∈ w.line := by rw [hline]; exact List.mem_cons_self
  cases hheard : heard n d.arrival with
  | kept =>
      simp only [hheard] at hstep
      cases hstep
      refine Or.inr (following_kept h hphase hline ?_)
      cases harrival : d.arrival with
      | message m fds =>
          rw [harrival, heard] at hheard
          split at hheard
          · cases hheard
          · split at hheard
            · rename_i hbus
              simp [Arrival.fromBus, Arrival.header, hbus]
            · cases hheard
      | undecodable u =>
          rw [harrival, heard] at hheard
          split at hheard <;> cases hheard
  | dropped =>
      simp only [hheard] at hstep
      cases hstep
      refine Or.inr (following_dropped h hphase hline ?_)
      cases harrival : d.arrival with
      | message m fds =>
          rw [harrival, heard] at hheard
          split at hheard
          · cases hheard
          · split at hheard
            · cases hheard
            · rename_i hbus
              exact if_neg fun hall => hbus hall.2.1
      | undecodable u => rfl
  | ends r =>
      simp only [hheard] at hstep
      cases hstep
      have hserial : serialOf d.arrival.header = some n := by
        cases harrival : d.arrival with
        | message m fds =>
            rw [harrival, heard] at hheard
            split at hheard
            · rename_i hn
              exact hn
            · split at hheard <;> cases hheard
        | undecodable u =>
            rw [harrival, heard] at hheard
            split at hheard
            · cases hheard
            · rename_i hn
              exact not_not.mp hn
      have hsilent : changeIn d.arrival = none := by
        by_contra hsome
        rw [h.line.silent d hd hsome] at hserial
        cases hserial
      refine following_finish h hphase htodo rfl (Nat.le_refl _) ?_
        (show w.line = [d] ++ line from hline) ?_ ?_
      · have hunwritten : w.phase.unwritten = rest := by
          rw [hphase]
          show (if u.waiting.isSome then u.todo.tail else u.todo) = rest
          rw [hwaiting, htodo]
          rfl
        rw [hunwritten]
      · rw [changesIn_singleton, hsilent]
        rfl
      · rintro name rfl
        have hasks : w.phase.asks = some (n, name) := by
          rw [hphase, asks_settingUp, hwaiting, htodo]
          rfl
        have hserial' : serialOf d.arrival.header = w.waiting := by
          simpa [World.waiting, hphase, hwaiting] using hserial
        have hreply := hclean (asksOwner_of_todo hphase htodo) d (by rw [hline]; rfl) hserial'
        have hbus : d.arrival.fromBus = true := by
          cases hbus : d.arrival.fromBus with
          | true => rfl
          | false => exact absurd (h.calls.asking n name hasks) (h.line.replies d hd hreply hbus n hserial).2
        refine ⟨n, hasks, d, List.mem_singleton_self d, hbus, hserial, ?_⟩
        cases harrival : d.arrival with
        | message m fds =>
            rw [harrival] at hserial hheard
            replace hserial : serialOf m = some n := hserial
            rw [heard, if_pos hserial] at hheard
            cases hheard
            rfl
        | undecodable u =>
            rw [harrival] at hserial hheard
            replace hserial : serialOf u.message = some n := hserial
            rw [heard, if_neg (not_not.mpr hserial)] at hheard
            cases hheard
            rfl

theorem following_breaks (h : Following w) (hclean : w.TakesAnswer .breaks)
    (hstep : w.breaks = some w') : w'.phase = .failed ∨ Following w' := by
  unfold World.breaks at hstep
  split at hstep
  case h_2 => cases hstep
  rename_i u hphase
  split at hstep
  case h_2 => cases hstep
  rename_i n q rest hwaiting htodo
  cases hstep
  refine following_finish h hphase htodo rfl (Nat.le_refl _) ?_ (List.nil_append w.line).symm rfl ?_
  · have hunwritten : w.phase.unwritten = rest := by
      rw [hphase]
      show (if u.waiting.isSome then u.todo.tail else u.todo) = rest
      rw [hwaiting, htodo]
      rfl
    rw [hunwritten]
  · rintro name rfl
    exact absurd (asksOwner_of_todo hphase htodo) (by rw [show w.asksOwner = false from hclean]; simp)

/-! ## Section 9: The Client Is Served -/

theorem inHand_serving (s : Client) : (Phase.serving s).inHand =
    match s.reader with
    | .received m _ => (ownerChange m).toList
    | _ => [] := rfl

theorem inHand_of_signalled {s : Client} (h : s.reader.signalled = none) :
    (Phase.serving s).inHand = [] := by
  rw [inHand_serving]
  cases hreader : s.reader with
  | received m fds =>
      rw [hreader] at h
      cases h
  | _ => rfl

theorem receiveStep_cases {s s' : Client} {a : Arrival} (h : receiveStep s a = some s') :
    s.reader = .recv ∧ s'.owners = s.owners ∧ s'.serial = s.serial ∧
      ((∃ m fds, a = .message m fds ∧ s'.reader = .received m fds) ∨
        ∃ u, a = .undecodable u ∧ s'.reader.signalled = none) := by
  unfold receiveStep at h
  split at h
  case h_2 => cases h
  rename_i hrecv
  split at h
  · cases h
  simp only at h
  split at h
  · cases h
    exact ⟨hrecv, rfl, rfl, Or.inl ⟨_, _, rfl, rfl⟩⟩
  · split at h
    all_goals
      cases h
      exact ⟨hrecv, rfl, rfl, Or.inr ⟨_, rfl, rfl⟩⟩

/-- A message is taken from the line into the thread's hands. -/
theorem right_receive {s s' : Client} {d : Delivery} {seen : List Delivery} {o : Owners} {name : String}
    (h : receiveStep s d.arrival = some s') (hright : Right (.serving s) (d :: seen) o name) :
    Right (.serving s') seen o name := by
  obtain ⟨hrecv, howners, _, hhand⟩ := receiveStep_cases h
  have hbefore : (Phase.serving s).inHand = [] := by
    rw [inHand_serving, hrecv]
  have hafter : (Phase.serving s').inHand = (changeIn d.arrival).toList := by
    rcases hhand with ⟨m, fds, harrival, hreader⟩ | ⟨u, harrival, hreader⟩
    · rw [inHand_serving, hreader, harrival]
      rfl
    · rw [inHand_of_signalled hreader, harrival]
      rfl
  have hsame : (Phase.serving s').inHand ++ changesIn seen =
      (Phase.serving s).inHand ++ changesIn (d :: seen) := by
    rw [hbefore, hafter]
    show _ = [] ++ changesIn ([d] ++ seen)
    rw [changesIn_append, changesIn_singleton]
    rfl
  constructor
  case told =>
    rw [hsame]
    exact hright.told
  case known =>
    rw [hsame]
    intro _ hnone
    show ownerIn s'.owners name = o name
    rw [howners]
    exact hright.known (by simp [Phase.Knows, Phase.todo]) hnone
  case answered =>
    intro n hn
    cases hn

theorem ruled_receive {s s' : Client} {d : Delivery} {seen : List Delivery} {rules : List String}
    (h : receiveStep s d.arrival = some s') (hruled : Ruled (.serving s) (d :: seen) rules) :
    Ruled (.serving s') seen rules := by
  obtain ⟨hrecv, _, _, hhand⟩ := receiveStep_cases h
  refine ⟨?_, hruled.known, fun n name hn => by cases hn⟩
  intro name hsome
  refine hruled.told name ?_
  have hbefore : (Phase.serving s).inHand = [] := by
    rw [inHand_serving, hrecv]
  rw [hbefore]
  show lastChange name ([] ++ changesIn ([d] ++ seen)) ≠ none
  rw [changesIn_append, changesIn_singleton]
  rcases hhand with ⟨m, fds, harrival, hreader⟩ | ⟨u, harrival, hreader⟩
  · rw [inHand_serving, hreader] at hsome
    rw [harrival]
    exact hsome
  · rw [inHand_of_signalled hreader] at hsome
    rw [harrival]
    exact hsome

theorem calls_serving {s s' : Client} {calls : List (Nat × Question)} {asked : List Nat}
    {rules : List String} (h : CallsRight (.serving s) calls asked rules) (hserial : s.serial ≤ s'.serial) :
    CallsRight (.serving s') calls asked rules :=
  ⟨fun n hn => Nat.lt_of_lt_of_le (h.below n hn) hserial, h.called, h.asking, h.serials, h.order,
    h.nodup, h.names⟩

/-- What is in hand once a message was read. -/
theorem read_receive {s s' : Client} {d : Delivery} {o : Owners} (h : receiveStep s d.arrival = some s')
    (hread : ReadRight (.serving s) o) {o' : Owners}
    (hpeer : d.arrival.fromBus = false → ∀ name ∈ gatewayNames, ownerIn s.owners name = o' name) :
    ReadRight (.serving s') o' := by
  obtain ⟨_, howners, _, hhand⟩ := receiveStep_cases h
  have hreader : (∃ m fds, d.arrival = .message m fds ∧ s'.reader = .received m fds) ∨
      s'.reader.signalled = none := by
    rcases hhand with hm | ⟨_, _, hnone⟩
    · exact Or.inl hm
    · exact Or.inr hnone
  refine {
    owned := ?owned, unknown := ?unknown, inHand := ?inHand, peer := ?peer, checked := ?checked }
  case owned =>
    show Owned s'.owners
    rw [howners]
    exact hread.owned
  case unknown =>
    intro e _
    simp [Phase.Knows, Phase.todo]
  case inHand =>
    rintro r m hr hm hsender name hname
    cases hr
    rw [howners]
    refine hpeer ?_ name hname
    rcases hreader with ⟨m', fds, harrival, hnow⟩ | hnone
    · rw [hnow] at hm
      cases hm
      rw [harrival]
      simpa [Arrival.fromBus, Arrival.header] using hsender
    · cases hnone.symm.trans hm
  case peer =>
    rintro r m fds hr hm
    cases hr
    rcases hreader with ⟨m', fds', _, hnow⟩ | hnone
    · cases hnow.symm.trans hm
    · rw [hm] at hnone
      cases hnone
  case checked =>
    rintro r m fds hr hm
    cases hr
    rcases hreader with ⟨m', fds', _, hnow⟩ | hnone
    · cases hnow.symm.trans hm
    · rw [hm] at hnone
      cases hnone

theorem following_receive (h : Following w) (hstep : w.receive = some w') : Following w' := by
  unfold World.receive at hstep
  split at hstep
  case h_2 => cases hstep
  rename_i s hphase
  obtain ⟨hagrees, hlines, hcalls, hruled, hread⟩ := h
  rw [hphase] at hagrees hlines hcalls hruled hread
  split at hstep
  -- First what was put aside while the connection was set up.
  · rename_i _ d backlog hbacklog
    obtain ⟨s', hreceive, rfl⟩ := Option.map_eq_some_iff.mp hstep
    obtain ⟨_, _, hserial, _⟩ := receiveStep_cases hreceive
    rw [hbacklog] at hagrees hlines hruled
    refine ⟨⟨?_, ?_⟩, ⟨?_, hlines.silent, ?_, ?_⟩, calls_serving hcalls (Nat.le_of_eq hserial.symm),
      ruled_receive hreceive hruled, read_receive hreceive hread ?_⟩
    · intro name hname
      exact right_receive hreceive (hagrees.now name hname)
    · intro before d' after hsplit name hname
      exact right_receive hreceive (hagrees.past before d' after hsplit name hname)
    · intro d' hd'
      exact hlines.kept d' (List.mem_cons_of_mem _ hd')
    · intro d' hd' hbus n hn
      show n < s'.serial
      rw [hserial]
      exact hlines.sent d' (List.mem_cons_of_mem _ hd') hbus n hn
    · intro d' hd' hreply hbus n hn
      show n < s'.serial ∧ _
      rw [hserial]
      exact hlines.replies d' hd' hreply hbus n hn
    · intro hpeer
      rw [hlines.kept d List.mem_cons_self] at hpeer
      cases hpeer
  -- Then what comes on the line.
  · rename_i d line hbacklog hline
    obtain ⟨s', hreceive, rfl⟩ := Option.map_eq_some_iff.mp hstep
    obtain ⟨_, _, hserial, _⟩ := receiveStep_cases hreceive
    rw [hbacklog, hline] at hagrees hlines hruled
    -- Right before the message is read the book is that of its moment.
    have hfirst : ∀ name ∈ gatewayNames, Right (.serving s) [d] d.owners name := fun name hname =>
      hagrees.past [] d line rfl name hname
    refine ⟨⟨?_, ?_⟩, ⟨?_, ?_, ?_, ?_⟩, calls_serving hcalls (Nat.le_of_eq hserial.symm), ?_,
      read_receive hreceive hread ?_⟩
    · rw [hbacklog]
      intro name hname
      exact right_receive hreceive (hagrees.now name hname)
    · rw [hbacklog]
      intro before d' after hsplit name hname
      refine right_receive hreceive (hagrees.past (d :: before) d' after ?_ name hname)
      rw [show line = before ++ d' :: after from hsplit]
      rfl
    · rw [hbacklog]
      exact fun d' hd' => by cases hd'
    · intro d' hd'
      exact hlines.silent d' (List.mem_cons_of_mem _ hd')
    · rw [hbacklog]
      intro d' hd' hbus n hn
      show n < s'.serial
      rw [hserial]
      exact hlines.sent d' (List.mem_cons_of_mem _ hd') hbus n hn
    · intro d' hd' hreply hbus n hn
      show n < s'.serial ∧ _
      rw [hserial]
      exact hlines.replies d' (List.mem_cons_of_mem _ hd') hreply hbus n hn
    · rw [hbacklog]
      exact ruled_receive hreceive hruled
    · intro hpeer name hname
      -- A peer's message changes no owner, so the book of its moment is the one kept.
      refine (hfirst name hname).known (by simp [Phase.Knows, Phase.todo]) ?_
      obtain ⟨hrecv, _⟩ := receiveStep_cases hreceive
      have hnone : (Phase.serving s).inHand = [] := by
        rw [inHand_serving, hrecv]
      have hsilent : changeIn d.arrival = none := by
        cases harrival : d.arrival with
        | undecodable u => rfl
        | message m fds =>
            refine if_neg ?_
            rintro ⟨_, hsender, _⟩
            simp [harrival, Arrival.fromBus, Arrival.header, hsender] at hpeer
      rw [hnone, changesIn_singleton, hsilent]
      rfl
  · cases hstep

/-- A step of the client takes the change from the thread's hands to the owners, or touches
neither. -/
theorem Handled.owners_cases {s s' : Client} (h : Handled s s') :
    (s'.owners = s.owners ∧ (Phase.serving s').inHand = (Phase.serving s).inHand) ∨
      ∃ args, (Phase.serving s).inHand = (toldBy args).toList ∧ (Phase.serving s').inHand = [] ∧
        s'.owners = ownerChanged s.owners args := by
  cases h with
  | aside howners hreader =>
      refine Or.inl ⟨howners, ?_⟩
      rw [inHand_serving, inHand_serving, hreader]
  | idle howners hnot hidle =>
      -- Nothing that tells of owners was in hand.
      refine Or.inl ⟨howners, ?_⟩
      rw [inHand_of_signalled hidle, inHand_serving]
      cases hreader : s.reader with
      | received m fds => exact absurd hreader (hnot m fds)
      | _ => rfl
  | checked m fds hreader howners hnext howner hforwarded =>
      refine Or.inl ⟨howners, ?_⟩
      rw [inHand_serving, inHand_serving, hreader, hnext]
  -- The message in hand is looked at, and the book follows it.
  | looked m fds hreader howners hnext =>
      have hbefore : (Phase.serving s).inHand = (ownerChange m).toList := by
        rw [inHand_serving, hreader]
      have hafter : (Phase.serving s').inHand = [] := by
        rcases hnext with hnone | ⟨hsignal, _⟩
        · exact inHand_of_signalled hnone
        · rw [inHand_serving, hsignal]
      rcases howners with ⟨hnone, hsame⟩ | ⟨args, htold, hchanged⟩
      · refine Or.inl ⟨hsame, ?_⟩
        rw [hbefore, hafter, hnone]
        rfl
      · refine Or.inr ⟨args, ?_, hafter, hchanged⟩
        rw [hbefore, htold]

theorem Handled.right {s s' : Client} (h : Handled s s') {seen : List Delivery} {o : Owners}
    {name : String} (hname : name ∈ gatewayNames) (hright : Right (.serving s) seen o name) :
    Right (.serving s') seen o name := by
  have hknows : (Phase.serving s).Knows name := by simp [Phase.Knows, Phase.todo]
  -- The book is as before, or takes over what was in hand.
  rcases h.owners_cases with ⟨howners, hhand⟩ | ⟨args, hbefore, hafter, howners⟩
  · constructor
    case told =>
      rw [hhand]
      exact hright.told
    case known =>
      rw [hhand]
      intro _ hnone
      show ownerIn s'.owners name = o name
      rw [howners]
      exact hright.known hknows hnone
    case answered =>
      intro n hn
      cases hn
  -- What was in hand is the last that was told of the name, if it told of it.
  · have hlast : lastChange name ((Phase.serving s).inHand ++ changesIn seen) =
        (lastChange name ((Phase.serving s').inHand ++ changesIn seen)).or
          (lastChange name (toldBy args).toList) := by
      rw [hbefore, hafter, lastChange_append]
      rfl
    constructor
    case told =>
      intro v hv
      refine hright.told v ?_
      rw [hlast, hv]
      rfl
    case known =>
      intro _ hnone
      rw [hnone, Option.none_or] at hlast
      show ownerIn s'.owners name = o name
      rw [howners, ownerIn_ownerChanged s.owners args hname]
      cases htold : toldBy args with
      | none =>
          rw [htold] at hlast
          exact hright.known hknows hlast
      | some c =>
          rw [htold] at hlast
          dsimp only
          split
          · rename_i hc
            refine hright.told c.2 ?_
            rw [hlast]
            exact if_pos hc
          · rename_i hc
            refine hright.known hknows ?_
            rw [hlast]
            exact if_neg hc
    case answered =>
      intro n hn
      cases hn

theorem Handled.ruled {s s' : Client} (h : Handled s s') {seen : List Delivery} {rules : List String}
    (hruled : Ruled (.serving s) seen rules) : Ruled (.serving s') seen rules := by
  refine ⟨?_, hruled.known, fun n name hn => by cases hn⟩
  intro name hsome
  refine hruled.told name ?_
  rcases h.owners_cases with ⟨_, hhand⟩ | ⟨args, _, hafter, _⟩
  · rw [← hhand]
    exact hsome
  · rw [hafter, List.nil_append] at hsome
    rw [lastChange_append]
    intro hnone
    exact hsome (Option.or_eq_none_iff.mp hnone).1

/-- The signal in hand is still from an owner, or was found to be. -/
theorem Handled.read {s s' : Client} (h : Handled s s') {o : Owners}
    (hread : ReadRight (.serving s) o) : ReadRight (.serving s') o := by
  refine {
    owned := ?owned, unknown := ?unknown, inHand := ?inHand, peer := ?peer, checked := ?checked }
  case owned =>
    show Owned s'.owners
    rcases h.owners_cases with ⟨howners, _⟩ | ⟨args, _, _, howners⟩
    · rw [howners]
      exact hread.owned
    · rw [howners]
      exact owned_ownerChanged hread.owned args
  case unknown =>
    intro e _
    simp [Phase.Knows, Phase.todo]
  case inHand =>
    rintro r m hr hm hsender name hname
    cases hr
    cases h with
    | aside howners hreader =>
        rw [howners]
        rw [hreader] at hm
        exact hread.inHand s m rfl hm hsender name hname
    | idle howners hnot hidle => cases hidle.symm.trans hm
    | checked m' fds hreader howners hnext _ _ =>
        rw [hnext] at hm
        obtain rfl : m' = m := Option.some.inj hm
        rw [howners]
        exact hread.inHand s m' rfl (by rw [hreader]; rfl) hsender name hname
    | looked m' fds hreader howners hnext =>
        rcases hnext with hnone | ⟨hsignal, _⟩
        · cases hnone.symm.trans hm
        rw [hsignal] at hm
        obtain rfl : m' = m := Option.some.inj hm
        have hthere := hread.inHand s m' rfl (by rw [hreader]; rfl) hsender name hname
        -- A peer's signal tells no change.
        have hsilent : ownerChange m' = none := if_neg fun hall => hsender hall.2.1
        rcases howners with ⟨_, hsame⟩ | ⟨args, htold, hchanged⟩
        · rw [hsame]
          exact hthere
        · rw [hchanged, ownerIn_ownerChanged s.owners args hname, ← htold, hsilent]
          exact hthere
  case peer =>
    rintro r m fds hr hm
    cases hr
    cases h with
    | aside howners hreader =>
        rw [hreader] at hm
        exact hread.peer s m fds rfl hm
    | idle howners hnot hidle =>
        rw [hm] at hidle
        cases hidle
    | checked m' fds' hreader howners hnext _ _ => cases hnext.symm.trans hm
    | looked m' fds' hreader howners hnext =>
        rcases hnext with hnone | ⟨hsignal, hpeer⟩
        · rw [hm] at hnone
          cases hnone
        · cases hsignal.symm.trans hm
          exact hpeer
  case checked =>
    rintro r m fds hr hm
    cases hr
    cases h with
    | aside howners hreader =>
        rw [hreader] at hm
        obtain ⟨hpeer, howner, hforwarded⟩ := hread.checked s m fds rfl hm
        refine ⟨hpeer, ?_, hforwarded⟩
        unfold fromOwner
        rw [howners]
        exact howner
    | idle howners hnot hidle =>
        rw [hm] at hidle
        cases hidle
    | looked m' fds' hreader howners hnext =>
        rcases hnext with hnone | ⟨hsignal, _⟩
        · rw [hm] at hnone
          cases hnone
        · cases hsignal.symm.trans hm
    | checked m' fds' hreader howners hnext howner hforwarded =>
        cases hnext.symm.trans hm
        refine ⟨hread.peer s m fds rfl hreader, ?_, hforwarded⟩
        unfold fromOwner
        rw [howners]
        exact howner

theorem following_serve (h : Following w) {a : Action} (hstep : w.serve cfg a = some w') :
    Following w' := by
  unfold World.serve at hstep
  split at hstep
  case h_2 => cases hstep
  rename_i s hphase
  split at hstep
  · cases hstep
  rename_i hreceives
  obtain ⟨s', hgateway, rfl⟩ := Option.map_eq_some_iff.mp hstep
  obtain ⟨hhandled, hserial⟩ := handled_step (by simpa using hreceives) hgateway
  obtain ⟨hagrees, hlines, hcalls, hruled, hread⟩ := h
  rw [hphase] at hagrees hlines hcalls hruled hread
  refine {
    agrees := { now := ?now, past := ?past },
    line := { kept := hlines.kept, silent := hlines.silent, sent := ?sent, replies := ?replies },
    calls := calls_serving hcalls hserial, ruled := hhandled.ruled hruled,
    read := hhandled.read hread }
  case now =>
    intro name hname
    exact hhandled.right hname (hagrees.now name hname)
  case past =>
    intro before d after hsplit name hname
    exact hhandled.right hname (hagrees.past before d after hsplit name hname)
  case sent =>
    intro d hd hbus n hn
    exact Nat.lt_of_lt_of_le (hlines.sent d hd hbus n hn) hserial
  case replies =>
    intro d hd hreply hbus n hn
    obtain ⟨hlt, hnot⟩ := hlines.replies d hd hreply hbus n hn
    exact ⟨Nat.lt_of_lt_of_le hlt hserial, hnot⟩

/-! ## Section 10: Every Run -/

/-- A connection that was given up, or that is followed. -/
def World.Sound (w : World) : Prop :=
  w.phase = .failed ∨ Following w

theorem sound_step (h : w.Sound) {mv : Move} (hclean : w.TakesAnswer mv)
    (hstep : World.step cfg w mv = some w') : w'.Sound := by
  rcases h with hfailed | h
  -- A setup that failed does nothing more.
  · refine Or.inl ?_
    cases mv with
    | change name new m =>
        simp only [World.step] at hstep
        split at hstep
        · cases hstep
          unfold World.changeOwner
          dsimp only
          split <;> exact hfailed
        · cases hstep
    | answer m =>
        simp only [World.step, World.answer] at hstep
        split at hstep
        · cases hstep
        · rename_i n q rest _
          split at hstep
          · cases hstep
            cases q <;> exact hfailed
          · cases hstep
    | deliver a =>
        simp only [World.step] at hstep
        split at hstep
        · cases hstep
          exact hfailed
        · cases hstep
    | ask sent => simp [World.step, World.ask, hfailed] at hstep
    | hear => simp [World.step, World.hear, hfailed] at hstep
    | breaks => simp [World.step, World.breaks, hfailed] at hstep
    | receive => simp [World.step, World.receive, hfailed] at hstep
    | serve a => simp [World.step, World.serve, hfailed] at hstep
  -- Move by move, each by its own lemma.
  · cases mv with
    | change name new m =>
        simp only [World.step] at hstep
        split at hstep
        · rename_i hall
          cases hstep
          exact Or.inr (following_change h hall.1 hall.2)
        · cases hstep
    | answer m => exact Or.inr (following_answer h hstep).1
    | deliver a =>
        simp only [World.step] at hstep
        split at hstep
        · rename_i hmay
          cases hstep
          exact Or.inr (following_deliver h hmay)
        · cases hstep
    | ask sent => exact following_ask h hclean hstep
    | hear => exact following_hear h hclean hstep
    | breaks => exact following_breaks h hclean hstep
    | receive => exact Or.inr (following_receive h hstep)
    | serve a => exact Or.inr (following_serve h hstep)

theorem script_nodup (identity : Option String) : (script identity).Nodup := by
  cases identity with
  | none => decide
  | some app =>
      refine List.nodup_cons.mpr ⟨?_, by decide⟩
      simp [follow, gatewayNames]

theorem getNameOwner_mem_script {identity : Option String} {name : String} :
    .getNameOwner name ∈ script identity ↔ name ∈ gatewayNames := by
  cases identity <;> simp [script, follow]

theorem following_initial (owners : Owners) (identity : Option String) (serial : Nat) :
    Following (World.initial owners identity serial) := by
  have hbus : (gatewayNames.flatMap follow).filter Question.toBus = gatewayNames.flatMap follow := by
    decide
  refine ⟨⟨?_, ?_⟩, ⟨?_, ?_, ?_, ?_⟩, ⟨?_, ?_, ?_, ?_, ⟨[], ?_, ?_⟩, ?_, ?_⟩, ⟨?_, ?_, ?_⟩,
    ⟨?_, ?_, ?_, ?_, ?_⟩⟩
  -- No name is asked for yet, so none is known.
  · intro name hname
    constructor
    · exact fun v hv => by cases hv
    · exact fun hknows => absurd (getNameOwner_mem_script.mpr hname) hknows
    · exact fun n hn => by cases hn
  · intro before d after hsplit
    simp [World.initial] at hsplit
  · exact fun d hd => by cases hd
  · exact fun d hd => by cases hd
  · exact fun d hd => by cases hd
  · exact fun d hd => by cases hd
  · exact fun n hn => by cases hn
  · exact fun c hc => by cases hc
  · exact fun n name hn => by cases hn
  · exact fun c hc => by cases hc
  · show _ = [] ++ [] ++ List.filter Question.toBus (script identity)
    cases identity with
    | none => exact hbus.symm
    | some app => exact hbus.symm
  · exact fun rule hrule => by cases hrule
  · exact script_nodup identity
  · exact fun name hname => getNameOwner_mem_script.mp hname
  · exact fun name hsome => absurd rfl hsome
  · intro name hname hknows
    exact absurd (getNameOwner_mem_script.mpr hname) hknows
  · exact fun n name hn => by cases hn
  · exact ⟨List.nodup_nil, fun e he => by cases he⟩
  · exact fun e he => by cases he
  · exact fun s m hs => by cases hs
  · exact fun s m fds hs => by cases hs
  · exact fun s m fds hs => by cases hs

end Moves

/-- In every run in which the calls for the owners take their answers, the gateway follows the
owners. -/
theorem owners_are_true (cfg : Setup) (owners : Owners) (identity : Option String) (serial : Nat)
    (moves : List Move) (w : World)
    (hrun : run (World.step cfg) (World.initial owners identity serial) moves = some w)
    (hmeets : StepsMeet (World.step cfg) World.TakesAnswer (World.initial owners identity serial)
      moves) :
    OwnersTrue cfg w := by
  have hsound : w.Sound := by
    refine run_invariant_of_meets ?_ (Or.inr (following_initial owners identity serial)) hmeets hrun
    intro w mv w' hsound hclean hstep
    exact sound_step hsound hclean hstep
  rcases hsound with hfailed | h
  · -- Nothing is served.
    constructor
    · rintro s ⟨hphase, _⟩
      cases hfailed.symm.trans hphase
    · rintro a w' m hstep ⟨s, s', args, expose, out, hphase, _⟩
      cases hfailed.symm.trans hphase
  · exact h.ownersTrue

/-- The bus's answer to an `AddMatch`. -/
def ruleAdded (n : UInt32) : Message :=
  { kind := Kind.methodReturn, replySerial := some n, sender := some busName }

def ownerReturn (n : UInt32) (owner : String) : Message :=
  Message.setBody (ruleAdded n) [.str owner]

def noOwner (n : UInt32) : Message :=
  { kind := Kind.error, replySerial := some n, sender := some busName,
    errorName := some "org.freedesktop.DBus.Error.NameHasNoOwner" }

def nameOwnerChanged (name old new : String) : Message :=
  Message.setBody
    { kind := Kind.signal, path := some "/org/freedesktop/DBus", interface := some busName,
      member := some "NameOwnerChanged", sender := some busName }
    [.str name, .str old, .str new]

/-- A signal of the portal. -/
def settingChanged (sender : String) : Message :=
  { kind := Kind.signal, path := some portalPath, sender := some sender,
    interface := some "org.freedesktop.portal.Settings", member := some "SettingChanged" }

/-- A call to the bus is sent and answered, and the answer read. -/
def called (answer : Message) : List Move :=
  [.ask true, .answer answer, .hear]

/-- The setup until the portal's owner is asked for. -/
def untilAsked : List Move :=
  called (ruleAdded 2) ++ called (ruleAdded 3) ++ [.ask true]

/-- The rest of the setup, with one message more to read. -/
def untilServed : List Move :=
  .hear :: .ask true :: .answer (ruleAdded 5) :: .hear :: .hear :: called (ruleAdded 6) ++
    called (noOwner 7)

def portalRuns : Owners := fun name => if name = portalName then some ":1.7" else none

/-- The portal restarts between the bus's answer and its reading. The change is kept until the
connection is served, and the new portal's signal is passed on. -/
def untilPassedOn : List Move :=
  untilAsked ++ .answer (ownerReturn 4 ":1.7") ::
    .change portalName (some ":1.8") (nameOwnerChanged portalName ":1.7" ":1.8") :: untilServed ++
    .receive :: List.replicate 4 (.serve (.relay {})) ++
    .deliver (.message (settingChanged ":1.8") []) :: .receive ::
      List.replicate 3 (.serve (.relay {}))

def Event.isRelayed : Event → Bool
  | .relayed .. => true
  | _ => false

theorem owners_are_true_example :
    ∃ w, run (World.step exampleSetup) (World.initial portalRuns none 2) untilPassedOn = some w ∧
      OwnersTrue exampleSetup w := by
  have hrun : (run (World.step exampleSetup) (World.initial portalRuns none 2) untilPassedOn).any
      fun w => match w.phase with
        | .serving s => s.ownerOf portalName == some ":1.8" && s.log.any Event.isRelayed
        | _ => false := by
    decide
  obtain ⟨w, hw, _⟩ := exists_of_any hrun
  exact ⟨w, hw, owners_are_true _ _ _ _ _ w hw (by decide)⟩

/-- A signal that any peer on the host can send to the connection. -/
def forgedOwner : Message :=
  Message.setBody
    { kind := Kind.signal, path := some "/", interface := some "org.example.Any", member := some "Any",
      sender := some ":1.66", replySerial := some 4 }
    [.str ":1.66"]

/-- The forged signal is read before the bus's answer. -/
def untilFooled : List Move :=
  untilAsked ++ .deliver (.message forgedOwner []) :: .answer (ownerReturn 4 ":1.7") ::
    untilServed ++ .receive :: List.replicate 2 (.serve (.relay {}))

def Reader.isRecv : Reader → Bool
  | .recv => true
  | _ => false

/-- `call_fds` takes a signal with the serial of its call for the reply: the peer is recorded as
the portal's owner. -/
theorem owners_not_true :
    ∃ w, run (World.step exampleSetup) (World.initial portalRuns none 2) untilFooled = some w ∧
      ¬OwnersTrue exampleSetup w := by
  have hrun : (run (World.step exampleSetup) (World.initial portalRuns none 2) untilFooled).any
      fun w => w.backlog.isEmpty && w.line.isEmpty && w.owners portalName == some ":1.7" &&
        match w.phase with
        | .serving s => s.ownerOf portalName == some ":1.66" && s.reader.isRecv
        | _ => false := by
    decide
  obtain ⟨w, hw, hstate⟩ := exists_of_any hrun
  simp only [Bool.and_eq_true, List.isEmpty_iff, beq_iff_eq] at hstate
  obtain ⟨⟨⟨hbacklog, hline⟩, howner⟩, hserving⟩ := hstate
  refine ⟨w, hw, fun h => ?_⟩
  split at hserving
  case h_2 => cases hserving
  rename_i s hphase
  simp only [Bool.and_eq_true, beq_iff_eq] at hserving
  obtain ⟨hfooled, hreader⟩ := hserving
  have hrecv : s.reader = .recv := by
    cases hr : s.reader <;> rw [hr] at hreader <;> first | rfl | cases hreader
  have hsame := h.settled s ⟨hphase, hrecv, hbacklog, hline⟩ portalName (by decide)
  rw [hfooled, howner] at hsame
  exact absurd hsame (by decide)

end Psbox.Gateway
