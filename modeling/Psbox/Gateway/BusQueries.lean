import Psbox.DBus.Conn

/-!
# What the Gateway Asks the Bus

The gateway identifies a client by the descriptor that the bus daemon gives for
the client's process, and asks the bus daemon whether a name is still there.
Both go through `Conn::call_fds` on a connection that the sandbox can send
messages to.

This file states what a call may return (`OwnReplyOnly`) and proves exactly when
`call_fds` keeps to it: the loop matches a reply by its serial alone, not by its
kind, and drops what it cannot decode.
-/

namespace Psbox.Gateway

open Psbox.DBus

/-! ## Section 1: Two Questions -/

/-- `on_bus`, from what the call of `NameHasOwner` returned. -/
def onBus (reply : Received) : Bool :=
  match reply with
  | .ok (m, _) =>
      match m.args with
      | .ok (.bool b :: _) => b
      | _ => false
  | .error _ => false

/-- The index, among the reply's descriptors, of the `ProcessFD` in a
`GetConnectionCredentials` reply. -/
def processFd (args : List Value) : Option Nat :=
  match args.head?.bind (Value.dictGet "ProcessFD") with
  | some (.fd i) => some i.toNat
  | _ => none

/-- The process descriptor `identity` takes, from what the call of
`GetConnectionCredentials` returned. -/
def identityFd (reply : Received) : Option Fd :=
  match reply with
  | .ok (m, fds) =>
      match m.args with
      | .ok args => (processFd args).bind fun i => fds[i]?
      | .error _ => none
  | .error _ => none

/-! ## Section 2: What a Call May Return -/

/-- A message that answers the call with the serial `serial`. -/
def Answers (serial : UInt32) (m : Message) : Prop :=
  (m.kind = Kind.methodReturn ∨ m.kind = Kind.error) ∧ m.replySerial = some serial

instance (serial : UInt32) (m : Message) : Decidable (Answers serial m) :=
  inferInstanceAs (Decidable (_ ∧ _))

/-- What the bus daemon is relied on for: it delivers an answer to a call only
from the peer that was called, and it sets the sender. -/
def BusDelivers (peer : String) (c : Conn) : Prop :=
  ∀ t ∈ c.read.incoming, Answers c.serial t.arrival.header →
    t.arrival.header.sender = some peer

instance (peer : String) (c : Conn) : Decidable (BusDelivers peer c) :=
  inferInstanceAs (Decidable (∀ t ∈ c.read.incoming, _ → _))

/-- A message that arrived and answers the call, from the peer that was called. -/
def AnsweredBy (peer : String) (c : Conn) (m : Message) (fds : List Fd) : Prop :=
  (∃ t ∈ c.read.incoming, t.arrival = .message m fds) ∧
    Answers c.serial m ∧ m.sender = some peer

/-- A call on the connection `c` returns only its own reply: what it returned is
`res`, and `after` is the connection after it. -/
structure OwnReplyOnly (peer : String) (c : Conn) (res : Received) (after : Conn) : Prop where
  /-- What is returned as the reply is the return of the call. -/
  returned : ∀ m fds, res = .ok (m, fds) →
    m.kind = Kind.methodReturn ∧ AnsweredBy peer c m fds
  /-- What is returned as the remote error is an error that answers the call. -/
  remote : ∀ text, res = .error (.remote text) →
    ∃ m fds, m.kind = Kind.error ∧ AnsweredBy peer c m fds ∧ text = remoteText m
  /-- Nor does anything else end the call by what it says of itself. -/
  undecodable : ∀ u, res = .error (.undecodable u) → Answers c.serial u.message
  /-- What the bus sent meanwhile is returned by later calls of `recv`, each once
  and in order, before what has not arrived yet. -/
  kept : ∃ passed ended,
    c.read.incoming = passed ++ ended ++ after.read.incoming ∧
    ended.length ≤ 1 ∧ (∀ t ∈ ended, Answers c.serial t.arrival.header) ∧
    after.read.recvs (after.read.backlog.length + after.read.incoming.length) =
      c.read.backlog.map .ok ++
      (passed.filter fun t => t.arrival.fromBus).map (fun t => t.arrival.result) ++
      after.read.incoming.map (fun t => t.arrival.result)
  /-- A process descriptor comes from the peer that was called. -/
  identity : ∀ fd, identityFd res = some fd → ∃ m fds, AnsweredBy peer c m fds ∧ fd ∈ fds
  /-- So does the answer that a name is on the bus. -/
  presence : onBus res = true →
    ∃ m fds rest, AnsweredBy peer c m fds ∧ m.args = .ok (.bool true :: rest)

/-- The first arrival in time that carries the call's serial is a return or an
error, and every message from the bus before it can be decoded. -/
def RepliesInOrder (c : Conn) : Prop :=
  (∀ t ∈ (atEnd c.deadline c.serial c.read.incoming).head?,
    deadlinePassed c.deadline t.now = false →
    t.arrival.header.kind = Kind.methodReturn ∨ t.arrival.header.kind = Kind.error) ∧
  (∀ t ∈ passedOver c.deadline c.serial c.read.incoming,
    t.arrival.fromBus → t.arrival.decoded.isSome)

/-! ## Section 3: Consequences of the Reply's Origin -/

private theorem identity_of_returned {peer : String} {c : Conn} {res : Received}
    (hret : ∀ m fds, res = .ok (m, fds) → m.kind = Kind.methodReturn ∧ AnsweredBy peer c m fds)
    (fd : Fd) (hfd : identityFd res = some fd) :
    ∃ m fds, AnsweredBy peer c m fds ∧ fd ∈ fds := by
  rcases res with e | ⟨m, fds⟩
  · simp [identityFd] at hfd
  · refine ⟨m, fds, (hret m fds rfl).2, ?_⟩
    cases hargs : m.args with
    | error e => simp [identityFd, hargs] at hfd
    | ok args =>
        simp only [identityFd, hargs, Option.bind_eq_some_iff] at hfd
        obtain ⟨i, _, hi⟩ := hfd
        exact List.mem_of_getElem? hi

private theorem presence_of_returned {peer : String} {c : Conn} {res : Received}
    (hret : ∀ m fds, res = .ok (m, fds) → m.kind = Kind.methodReturn ∧ AnsweredBy peer c m fds)
    (hon : onBus res = true) :
    ∃ m fds rest, AnsweredBy peer c m fds ∧ m.args = .ok (.bool true :: rest) := by
  rcases res with e | ⟨m, fds⟩
  · simp [onBus] at hon
  · cases hargs : m.args with
    | error e => simp [onBus, hargs] at hon
    | ok args =>
        simp only [onBus, hargs] at hon
        split at hon
        · rename_i b rest heq
          refine ⟨m, fds, rest, (hret m fds rfl).2, ?_⟩
          cases heq
          rw [hargs, hon]
        · simp at hon

/-! ## Section 4: When a Call Keeps to It -/

private theorem callResult_eq_ok {reply m : Message} {fds fds' : List Fd}
    (h : callResult reply fds = .ok (m, fds')) :
    m = reply ∧ fds' = fds ∧ reply.kind ≠ Kind.error := by
  unfold callResult at h
  split at h
  · cases h
  · rename_i hkind
    cases h
    exact ⟨rfl, rfl, hkind⟩

private theorem callResult_eq_error {reply : Message} {fds : List Fd} {e : IoError}
    (h : callResult reply fds = .error e) :
    reply.kind = Kind.error ∧ e = .remote (remoteText reply) := by
  unfold callResult at h
  split at h
  · rename_i hkind
    cases h
    exact ⟨hkind, rfl⟩
  · cases h

/-- The messages from the bus among turns that can all be decoded. -/
private theorem map_ok_keptFor {turns : List Turn}
    (hdec : ∀ t ∈ turns, t.arrival.fromBus → t.arrival.decoded.isSome) :
    (keptFor turns).map Except.ok =
      (turns.filter fun t => t.arrival.fromBus).map (fun t => t.arrival.result) := by
  induction turns with
  | nil => rfl
  | cons t ts ih =>
      have hts := ih fun u hu => hdec u (List.mem_cons_of_mem _ hu)
      by_cases hbus : t.arrival.fromBus
      · have ht := hdec t List.mem_cons_self hbus
        cases harr : t.arrival with
        | message m fds =>
            have hdecoded : t.arrival.decoded = some (m, fds) := by rw [harr]; rfl
            have hresult : t.arrival.result = .ok (m, fds) := by rw [harr]; rfl
            simpa [keptFor, List.filter_cons, hbus, hdecoded, hresult] using hts
        | undecodable u => simp [harr, Arrival.decoded] at ht
      · simpa [keptFor, List.filter_cons, hbus] using hts

/-- A call never keeps more messages than the bus sent when one cannot be decoded. -/
private theorem length_keptFor_le (turns : List Turn) :
    (keptFor turns).length ≤ (turns.filter fun t => t.arrival.fromBus).length :=
  List.length_filterMap_le _ _

private theorem decoded_of_length_keptFor {turns : List Turn}
    (hlen : (turns.filter fun t => t.arrival.fromBus).length ≤ (keptFor turns).length) :
    ∀ t ∈ turns, t.arrival.fromBus → t.arrival.decoded.isSome := by
  intro t ht hbus
  have heq := List.filterMap_length_eq_length.mp
    (Nat.le_antisymm (length_keptFor_le turns) hlen)
  exact heq t (List.mem_filter.mpr ⟨ht, hbus⟩)

/-- A message that could not be sent leaves everything to be received. -/
private theorem ownReplyOnly_unsent (peer : String) (c : Conn) :
    OwnReplyOnly peer c (c.callFds false).1 (c.callFds false).2 where
  returned m fds h := by cases h
  remote text h := by cases h
  undecodable u h := by cases h
  kept := by
    refine ⟨[], [], rfl, by simp, by simp, ?_⟩
    simpa [Conn.callFds] using c.read.recvs_all
  identity fd h := by cases h
  presence h := by cases h

private theorem ownReplyOnly_sent {peer : String} {c : Conn} (hbus : BusDelivers peer c)
    (hrep : RepliesInOrder c) :
    OwnReplyOnly peer c (c.callFds true).1 (c.callFds true).2 := by
  obtain ⟨hend, hdec⟩ := hrep
  have hpassed := map_ok_keptFor hdec
  have hsplit := passedOver_append_atEnd c.deadline c.serial c.read.incoming
  rcases callLoop_cases c.deadline c.serial c.read.ends c.read.backlog c.read.incoming with
    ⟨e, he, _, hloop⟩ | ⟨t, ts, htail, hlate, hserial, hloop⟩
  -- No message is for the call: the connection ends, or its time.
  · have hcall : (c.callFds true).1 = .error e := by simp [Conn.callFds, hloop]
    have hread : (c.callFds true).2.read =
        { backlog := c.read.backlog ++ keptFor (passedOver c.deadline c.serial c.read.incoming),
          incoming := atEnd c.deadline c.serial c.read.incoming, ends := c.read.ends } := by
      simp [Conn.callFds, hloop]
    have hret : ∀ m fds, (c.callFds true).1 = .ok (m, fds) →
        m.kind = Kind.methodReturn ∧ AnsweredBy peer c m fds := by
      intro m fds h
      rw [hcall] at h
      cases h
    refine {
      returned := hret, remote := ?remote, undecodable := ?undecodable, kept := ?kept,
      identity := identity_of_returned hret, presence := presence_of_returned hret }
    case remote =>
      intro text h
      rw [hcall] at h
      rcases he with rfl | rfl <;> cases h
    case undecodable =>
      intro u h
      rw [hcall] at h
      rcases he with rfl | rfl <;> cases h
    case kept =>
      refine ⟨passedOver c.deadline c.serial c.read.incoming, [], ?_, by simp, by simp, ?_⟩
      · rw [hread, List.append_nil, hsplit]
      · rw [ReadState.recvs_all, hread, List.map_append, hpassed]
  -- The first message that is for the call ends it.
  · have hcall : (c.callFds true).1 = endResult t.arrival := by simp [Conn.callFds, hloop]
    have hread : (c.callFds true).2.read =
        { backlog := c.read.backlog ++ keptFor (passedOver c.deadline c.serial c.read.incoming),
          incoming := ts, ends := c.read.ends } := by
      simp [Conn.callFds, hloop]
    have hmem : t ∈ c.read.incoming := mem_of_mem_atEnd (htail ▸ List.mem_cons_self)
    have hans : Answers c.serial t.arrival.header :=
      ⟨hend t (by rw [htail]; rfl) hlate, hserial⟩
    have hsender := hbus t hmem hans
    have hret : ∀ m fds, (c.callFds true).1 = .ok (m, fds) →
        m.kind = Kind.methodReturn ∧ AnsweredBy peer c m fds := by
      intro m fds h
      rw [hcall] at h
      cases harr : t.arrival with
      | message reply rfds =>
          rw [harr] at h hans hsender
          obtain ⟨rfl, rfl, hkind⟩ := callResult_eq_ok h
          exact ⟨hans.1.resolve_right hkind, ⟨t, hmem, harr⟩, hans, hsender⟩
      | undecodable u => rw [harr] at h; cases h
    refine ⟨hret, ?_, ?_, ?_, identity_of_returned hret, presence_of_returned hret⟩
    · intro text h
      rw [hcall] at h
      cases harr : t.arrival with
      | message reply rfds =>
          rw [harr] at h hans hsender
          obtain ⟨hkind, htext⟩ := callResult_eq_error h
          cases htext
          exact ⟨reply, rfds, hkind, ⟨⟨t, hmem, harr⟩, hans, hsender⟩, rfl⟩
      | undecodable u => rw [harr] at h; cases h
    · intro u h
      rw [hcall] at h
      cases harr : t.arrival with
      | message reply rfds =>
          rw [harr] at h
          obtain ⟨_, htext⟩ := callResult_eq_error h
          cases htext
      | undecodable u' =>
          rw [harr] at h hans
          cases h
          exact hans
    · refine ⟨passedOver c.deadline c.serial c.read.incoming, [t], ?_, by simp, ?_, ?_⟩
      · rw [hread, List.append_assoc, List.singleton_append, ← htail, hsplit]
      · intro u hu
        rw [List.mem_singleton.mp hu]
        exact hans
      · rw [ReadState.recvs_all, hread, List.map_append, hpassed]

/-! ## Section 5: When It Does Not -/

/-- The turns a call passes over are among those that the split of `OwnReplyOnly` passes
over, so the bus messages kept for `recv` are at least as many. -/
private theorem decoded_of_ownReplyOnly {peer : String} {c : Conn} {res : Received} {after : Conn}
    (hown : OwnReplyOnly peer c res after) (rest : List Turn)
    (hincoming : after.read.incoming = rest)
    (hbacklog : after.read.backlog =
      c.read.backlog ++ keptFor (passedOver c.deadline c.serial c.read.incoming))
    (hsuffix : ∃ ended, atEnd c.deadline c.serial c.read.incoming = ended ++ rest) :
    ∀ t ∈ passedOver c.deadline c.serial c.read.incoming,
      t.arrival.fromBus → t.arrival.decoded.isSome := by
  obtain ⟨passed, ended, hall, hlen, hended, hrecvs⟩ := hown.kept
  obtain ⟨last, hlast⟩ := hsuffix
  have hsplit := passedOver_append_atEnd c.deadline c.serial c.read.incoming
  -- Both splits leave the same rest, so they split the same turns.
  have hsame : passedOver c.deadline c.serial c.read.incoming ++ last = passed ++ ended := by
    rw [hlast, ← List.append_assoc] at hsplit
    rw [hincoming, ← hsplit] at hall
    exact List.append_cancel_right hall
  -- No turn that answers the call is among those passed over.
  have hfirst : passedOver c.deadline c.serial c.read.incoming <+: passed := by
    cases ended with
    | nil => exact ⟨last, by simpa using hsame⟩
    | cons t ts =>
        have hts : ts = [] := by simpa using hlen
        subst hts
        cases hl : last.reverse with
        | nil =>
            have hnil : last = [] := by simpa using hl
            rw [hnil, List.append_nil] at hsame
            have hmem : t ∈ passedOver c.deadline c.serial c.read.incoming := by
              rw [hsame]
              simp
            exact absurd (hended t (by simp)).2 (mem_passedOver hmem).2
        | cons u us =>
            have hcons : last = us.reverse ++ [u] := by
              rw [← List.reverse_reverse last, hl, List.reverse_cons]
            rw [hcons, ← List.append_assoc] at hsame
            exact ⟨us.reverse, (List.append_inj' hsame rfl).1⟩
  apply decoded_of_length_keptFor
  rw [ReadState.recvs_all, hbacklog, List.map_append] at hrecvs
  have hkept := congrArg List.length (List.append_cancel_right hrecvs)
  simp only [List.length_append, List.length_map] at hkept
  have hle := ((hfirst.sublist).filter fun t => t.arrival.fromBus).length_le
  omega

private theorem repliesInOrder_of_own {peer : String} {c : Conn}
    (hown : OwnReplyOnly peer c (c.callFds true).1 (c.callFds true).2) :
    RepliesInOrder c := by
  rcases callLoop_cases c.deadline c.serial c.read.ends c.read.backlog c.read.incoming with
    ⟨e, _, htime, hloop⟩ | ⟨t, ts, htail, hlate, hserial, hloop⟩
  · refine ⟨?_, ?_⟩
    · intro t ht hlate
      rw [htime t ht] at hlate
      cases hlate
    · exact decoded_of_ownReplyOnly hown (atEnd c.deadline c.serial c.read.incoming)
        (by simp [Conn.callFds, hloop]) (by simp [Conn.callFds, hloop]) ⟨[], rfl⟩
  · refine ⟨?_, ?_⟩
    · intro u hu _
      rw [htail] at hu
      cases hu
      have hcall : (c.callFds true).1 = endResult t.arrival := by simp [Conn.callFds, hloop]
      cases harr : t.arrival with
      | message reply rfds =>
          by_cases hkind : reply.kind = Kind.error
          · exact Or.inr hkind
          · refine Or.inl (hown.returned reply rfds ?_).1
            rw [hcall, harr, endResult, callResult, if_neg hkind]
      | undecodable u' =>
          refine (hown.undecodable u' ?_).1
          rw [hcall, harr, endResult]
    · exact decoded_of_ownReplyOnly hown ts
        (by simp [Conn.callFds, hloop]) (by simp [Conn.callFds, hloop]) ⟨[t], htail⟩

/-- A call keeps to its own reply exactly when nothing that arrives in time
before its reply carries its serial without being a return or an error, and
nothing the bus sends meanwhile is undecodable. -/
theorem callFds_ownReplyOnly_iff (peer : String) (c : Conn) (sent : Bool)
    (hbus : BusDelivers peer c) :
    OwnReplyOnly peer c (c.callFds sent).1 (c.callFds sent).2 ↔
      (sent = true → RepliesInOrder c) := by
  cases sent with
  | false =>
      constructor
      · intro _ h
        cases h
      · intro _
        exact ownReplyOnly_unsent peer c
  | true =>
      constructor
      · intro hown _
        exact repliesInOrder_of_own hown
      · intro hrep
        exact ownReplyOnly_sent hbus (hrep rfl)

/-- The bus daemon's answer that a name is there. -/
def presentReply : Message :=
  { kind := Kind.methodReturn, serial := 4, replySerial := some 1, sender := some busName,
    signature := ['b'], body := [1, 0, 0, 0] }

theorem callFds_ownReplyOnly_presentReply :
    let c : Conn := { read := { incoming := [⟨0, .message presentReply []⟩] } }
    BusDelivers busName c ∧
      (OwnReplyOnly busName c (c.callFds true).1 (c.callFds true).2 ↔
        (true = true → RepliesInOrder c)) :=
  ⟨by decide, callFds_ownReplyOnly_iff busName _ true (by decide)⟩

/-- A client's signal that carries the serial of the gateway's call. -/
def straySignal : Message :=
  { kind := Kind.signal, serial := 9, path := some "/p", interface := some "i.f",
    member := some "M", replySerial := some 1, sender := some ":1.66",
    signature := ['b'], body := [1, 0, 0, 0] }

/-- The signal ends the call, and says that the name is on the bus. -/
theorem callFds_not_ownReplyOnly :
    ¬ ∀ (peer : String) (c : Conn) (sent : Bool), BusDelivers peer c →
        OwnReplyOnly peer c (c.callFds sent).1 (c.callFds sent).2 := by
  intro h
  let c : Conn := { read := { incoming := [⟨0, .message straySignal []⟩] } }
  have hown := h busName c true (by decide)
  exact absurd (hown.returned straySignal [] rfl).1 (by decide)

end Psbox.Gateway
