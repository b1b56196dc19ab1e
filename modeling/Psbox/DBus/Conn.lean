import Mathlib.Data.List.TakeWhile
import Psbox.DBus.Message

/-!
# D-Bus Connections: Reading and Calling

The reading side of `dbus/conn.rs`: `recv`, `read_one` and `call_fds`. A
connection is modelled by what its socket has still to deliver, one whole
message a turn; framing is `read_one`'s own matter and gives either a message or
an `Undecodable`, after which the connection can still be read, or an error that
ends it.
-/

namespace Psbox.DBus

def busName : String := "org.freedesktop.DBus"

/-- A descriptor received with a message. -/
abbrev Fd := Nat

/-- A received message whose header was read but whose body could not be
decoded; `message` has the header and an empty body. -/
structure Undecodable where
  message : Message
  reason : DecodeError

/-- What `read_one` reads from the socket. -/
inductive Arrival where
  | message (m : Message) (fds : List Fd)
  | undecodable (u : Undecodable)

/-- The errors of a connection. -/
inductive IoError where
  | undecodable (u : Undecodable)
  | timedOut
  /-- The ERROR message a call was answered with, as text. -/
  | remote (text : String)
  /-- The end of the connection, or any error that ends it. -/
  | broken

abbrev Received := Except IoError (Message × List Fd)

namespace Arrival

/-- The header of what arrived. -/
def header : Arrival → Message
  | message m _ => m
  | undecodable u => u.message

/-- What `read_one` returns for it. -/
def result : Arrival → Received
  | message m fds => .ok (m, fds)
  | undecodable u => .error (.undecodable u)

/-- Sent by the bus daemon itself, which sets the sender of every message. -/
def fromBus (a : Arrival) : Bool :=
  a.header.sender == some busName

/-- The message and its descriptors, when the body was decoded. -/
def decoded : Arrival → Option (Message × List Fd)
  | message m fds => some (m, fds)
  | undecodable _ => none

end Arrival

/-- One turn of a reading loop: the time just before it reads, and what arrives. -/
structure Turn where
  now : Nat
  arrival : Arrival

/-- `ReadState`: the messages kept for `recv`, and what the socket delivers
before the connection ends, which is noticed at the time `ends`. -/
structure ReadState where
  backlog : List (Message × List Fd) := []
  incoming : List Turn := []
  ends : Nat := 0

structure Conn where
  /-- The next serial. -/
  serial : UInt32 := 1
  /-- When calls on the connection stop waiting for their reply. -/
  deadline : Option Nat := none
  read : ReadState := {}

/-! ## Section 1: Receiving -/

namespace ReadState

/-- Reads the next message from the socket, past the backlog. -/
def readOne (st : ReadState) : Received × ReadState :=
  match st.incoming with
  | [] => (.error .broken, st)
  | t :: ts => (t.arrival.result, { st with incoming := ts })

def recv (st : ReadState) : Received × ReadState :=
  match st.backlog with
  | [] => st.readOne
  | m :: ms => (.ok m, { st with backlog := ms })

/-- What `n` calls of `recv` return, one after the other. -/
def recvs : Nat → ReadState → List Received
  | 0, _ => []
  | n + 1, st => st.recv.1 :: recvs n st.recv.2

/-- `recv` returns the backlog, then what arrives, each once and in order. -/
theorem recvs_all (st : ReadState) :
    recvs (st.backlog.length + st.incoming.length) st =
      st.backlog.map .ok ++ st.incoming.map (fun t => t.arrival.result) := by
  -- By induction over the backlog, and over what arrives once it is empty.
  obtain ⟨backlog, incoming, ends⟩ := st
  induction backlog with
  | nil =>
      induction incoming with
      | nil => rfl
      | cons t ts ih =>
          have hlen : ([] : List (Message × List Fd)).length + (t :: ts).length =
              ([] : List (Message × List Fd)).length + ts.length + 1 := by
            simp only [List.length_cons]
            omega
          simp only [hlen, recvs, recv, readOne, List.map_nil, List.nil_append, List.map_cons]
          rw [ih]
          simp only [List.map_nil, List.nil_append]
  | cons m ms ih =>
      have hlen : (m :: ms).length + incoming.length = ms.length + incoming.length + 1 := by
        simp only [List.length_cons]
        omega
      simp only [hlen, recvs, recv, List.map_cons, List.cons_append]
      rw [ih]

end ReadState

/-! ## Section 2: Calling -/

/-- Whether the deadline of a connection has passed. -/
def deadlinePassed (deadline : Option Nat) (now : Nat) : Bool :=
  deadline.any fun d => d ≤ now

/-- The text of the error a call returns for an ERROR reply. -/
def remoteText (reply : Message) : String :=
  let text := match reply.args with
    | .ok (v :: _) => v.asStr
    | _ => none
  reply.errorName.getD "error" ++ ": " ++ text.getD ""

/-- What a call returns for the message it took as its reply. -/
def callResult (reply : Message) (fds : List Fd) : Received :=
  if reply.kind = Kind.error then .error (.remote (remoteText reply)) else .ok (reply, fds)

/-- The loop of `call_fds`, over what arrives while it waits. -/
def callLoop (deadline : Option Nat) (serial : UInt32) (ends : Nat) :
    List (Message × List Fd) → List Turn → Received × ReadState
  | backlog, [] =>
      (.error (if deadlinePassed deadline ends then .timedOut else .broken),
        { backlog := backlog, incoming := [], ends := ends })
  | backlog, t :: ts =>
      -- The deadline is looked at before each read.
      if deadlinePassed deadline t.now then
        (.error .timedOut, { backlog := backlog, incoming := t :: ts, ends := ends })
      else
        match t.arrival with
        | .message m fds =>
            -- Whatever its kind and its sender are.
            if m.replySerial = some serial then
              (callResult m fds, { backlog := backlog, incoming := ts, ends := ends })
            -- The bus's own messages are kept for `recv`, all others are dropped.
            else if m.sender = some busName then
              callLoop deadline serial ends (backlog ++ [(m, fds)]) ts
            else callLoop deadline serial ends backlog ts
        | .undecodable u =>
            -- What cannot be decoded is passed over unless it is the answer.
            if u.message.replySerial ≠ some serial then callLoop deadline serial ends backlog ts
            else (.error (.undecodable u), { backlog := backlog, incoming := ts, ends := ends })

/-- `call_fds`: sends a method call and waits for its reply. `sent` says whether
the message could be written, with the connection's next serial. -/
def Conn.callFds (c : Conn) (sent : Bool) : Received × Conn :=
  let next := { c with serial := c.serial + 1 }
  if sent then
    let (res, read) := callLoop c.deadline c.serial c.read.ends c.read.backlog c.read.incoming
    (res, { next with read := read })
  else (.error .broken, next)

/-! ## Section 3: What a Call Passes Over -/

/-- A turn in time whose arrival does not carry the serial of the call. -/
def passes (deadline : Option Nat) (serial : UInt32) (t : Turn) : Bool :=
  !deadlinePassed deadline t.now && t.arrival.header.replySerial != some serial

/-- What arrives before the call ends. -/
def passedOver (deadline : Option Nat) (serial : UInt32) (turns : List Turn) : List Turn :=
  turns.takeWhile (passes deadline serial)

/-- What is still to arrive at the turn at which the call ends. -/
def atEnd (deadline : Option Nat) (serial : UInt32) (turns : List Turn) : List Turn :=
  turns.dropWhile (passes deadline serial)

/-- The messages a call keeps for `recv`. -/
def keptFor (turns : List Turn) : List (Message × List Fd) :=
  (turns.filter fun t => t.arrival.fromBus).filterMap fun t => t.arrival.decoded

/-- The turns that a call passes over come first, and then those from its end on. -/
theorem passedOver_append_atEnd (deadline : Option Nat) (serial : UInt32) (turns : List Turn) :
    passedOver deadline serial turns ++ atEnd deadline serial turns = turns :=
  List.takeWhile_append_dropWhile

/-- The loop goes through the turns it passes over, keeping the messages from
the bus among them. -/
theorem callLoop_passedOver (deadline : Option Nat) (serial : UInt32) (ends : Nat)
    (backlog : List (Message × List Fd)) (turns : List Turn) :
    callLoop deadline serial ends backlog turns =
      callLoop deadline serial ends (backlog ++ keptFor (passedOver deadline serial turns))
        (atEnd deadline serial turns) := by
  -- Induction over what arrives; the backlog grows on the way, so it is general.
  induction turns generalizing backlog with
  | nil => simp [passedOver, atEnd, keptFor]
  | cons t ts ih =>
      by_cases hpass : passes deadline serial t
      · have htake : passedOver deadline serial (t :: ts) = t :: passedOver deadline serial ts := by
          simp [passedOver, hpass]
        have hdrop : atEnd deadline serial (t :: ts) = atEnd deadline serial ts := by
          simp [atEnd, hpass]
        -- A turn that is passed over is in time and carries another serial.
        simp only [passes, Bool.and_eq_true, Bool.not_eq_true', bne_iff_ne] at hpass
        obtain ⟨hlate, hserial⟩ := hpass
        rw [htake, hdrop]
        obtain ⟨now, arrival⟩ := t
        cases arrival with
        | message m fds =>
            simp only [Arrival.header] at hserial
            -- Kept only where the bus sent it.
            by_cases hbus : m.sender = some busName
            · have hkept : keptFor (⟨now, .message m fds⟩ :: passedOver deadline serial ts) =
                  (m, fds) :: keptFor (passedOver deadline serial ts) := by
                simp [keptFor, Arrival.fromBus, Arrival.header, Arrival.decoded, hbus]
              rw [hkept, List.append_cons, ← ih]
              simp [callLoop, hlate, hserial, hbus]
            · have hkept : keptFor (⟨now, .message m fds⟩ :: passedOver deadline serial ts) =
                  keptFor (passedOver deadline serial ts) := by
                simp [keptFor, Arrival.fromBus, Arrival.header, hbus]
              rw [hkept, ← ih]
              simp [callLoop, hlate, hserial, hbus]
        | undecodable u =>
            simp only [Arrival.header] at hserial
            have hkept : keptFor (⟨now, .undecodable u⟩ :: passedOver deadline serial ts) =
                keptFor (passedOver deadline serial ts) := by
              -- What could not be decoded is never kept.
              by_cases hbus : (Arrival.undecodable u).fromBus <;>
                simp [keptFor, hbus, Arrival.decoded]
            rw [hkept, ← ih]
            simp [callLoop, hlate, hserial]
      -- The call ends at the first turn that is not passed over.
      · have htake : passedOver deadline serial (t :: ts) = [] := by
          simp [passedOver, hpass]
        have hdrop : atEnd deadline serial (t :: ts) = t :: ts := by
          simp [atEnd, hpass]
        rw [htake, hdrop]
        simp [keptFor]

/-- How a call ends with what arrived. -/
def endResult : Arrival → Received
  | .message m fds => callResult m fds
  | .undecodable u => .error (.undecodable u)

private theorem passes_head_atEnd {deadline : Option Nat} {serial : UInt32}
    {turns ts : List Turn} {t : Turn} (hend : atEnd deadline serial turns = t :: ts) :
    passes deadline serial t = false := by
  have hhead := List.head?_dropWhile_not (passes deadline serial) turns
  rw [← atEnd, hend] at hhead
  simpa using hhead

/-- A call ends in one of two ways: by time or with the connection, before
anything more is read, or with the first arrival in time that carries its serial. -/
theorem callLoop_cases (deadline : Option Nat) (serial : UInt32) (ends : Nat)
    (backlog : List (Message × List Fd)) (turns : List Turn) :
    (∃ e, (e = .timedOut ∨ e = .broken) ∧
      (∀ t ∈ (atEnd deadline serial turns).head?, deadlinePassed deadline t.now) ∧
      callLoop deadline serial ends backlog turns =
        (.error e, { backlog := backlog ++ keptFor (passedOver deadline serial turns),
                     incoming := atEnd deadline serial turns, ends := ends })) ∨
    (∃ t ts, atEnd deadline serial turns = t :: ts ∧ deadlinePassed deadline t.now = false ∧
      t.arrival.header.replySerial = some serial ∧
      callLoop deadline serial ends backlog turns =
        (endResult t.arrival, { backlog := backlog ++ keptFor (passedOver deadline serial turns),
                                incoming := ts, ends := ends })) := by
  rw [callLoop_passedOver]
  cases hend : atEnd deadline serial turns with
  | nil =>
      -- Nothing arrives any more, so it is the time or the connection.
      refine Or.inl ⟨if deadlinePassed deadline ends then .timedOut else .broken, ?_, by simp, ?_⟩
      · by_cases hlate : deadlinePassed deadline ends <;> simp [hlate]
      · rfl
  | cons t ts =>
      have hpass := passes_head_atEnd hend
      by_cases hlate : deadlinePassed deadline t.now
      -- The turn comes too late, and stays to be read.
      · refine Or.inl ⟨.timedOut, Or.inl rfl, by simpa using hlate, ?_⟩
        simp [callLoop, hlate]
      -- It is in time, so it ends the call by its serial.
      · have hserial : t.arrival.header.replySerial = some serial := by
          simpa [passes, hlate] using hpass
        refine Or.inr ⟨t, ts, rfl, by simpa using hlate, hserial, ?_⟩
        cases harr : t.arrival with
        | message m fds =>
            rw [harr] at hserial
            simp only [Arrival.header] at hserial
            simp [callLoop, hlate, harr, hserial, endResult]
        | undecodable u =>
            rw [harr] at hserial
            simp only [Arrival.header] at hserial
            simp [callLoop, hlate, harr, hserial, endResult]

/-- What was passed over and what the call ended with or left are all there was. -/
theorem mem_passedOver {deadline : Option Nat} {serial : UInt32} {turns : List Turn} {t : Turn}
    (ht : t ∈ passedOver deadline serial turns) :
    t ∈ turns ∧ t.arrival.header.replySerial ≠ some serial := by
  have hpass := List.mem_takeWhile_imp ht
  simp only [passes, Bool.and_eq_true, bne_iff_ne] at hpass
  exact ⟨(List.takeWhile_sublist _).subset ht, hpass.2⟩

theorem mem_of_mem_atEnd {deadline : Option Nat} {serial : UInt32} {turns : List Turn} {t : Turn}
    (ht : t ∈ atEnd deadline serial turns) : t ∈ turns :=
  (List.dropWhile_sublist _).subset ht

end Psbox.DBus
