import Psbox.Gateway.State

/-!
# What a Step Can Do

Each step of the system is one of the effects of `Effect`, which say what the state
is after it. Invariants are proved by cases on the effect; no proof about runs
unfolds the step function.

Steps that leave the calls, the portal state and the private bus alone are `Quiet`.
-/

namespace Psbox.Gateway

open Psbox.DBus Psbox.Portal Psbox.Foundations

/-! ## Section 1: The Threads That Pass Calls On -/

/-- A thread with a call in `forward`: a serving thread, or the reading thread with
the held calls it has yet to pass on. -/
inductive Thread where
  | serving (via : Via)
  | reader (rest : List Call)

namespace Client

/-- The thread is at a stage of `forward` with a call. -/
def At (s : Client) : Thread → Call → Stage → Prop
  | .serving via, c, st => s.serving via = .forwarding c st
  | .reader rest, c, st => s.reader = .passing c st rest

/-- The thread goes on to another stage. -/
def goOn (s : Client) (t : Thread) (c : Call) (st : Stage) : Client :=
  match t with
  | .serving via => s.setServing via (.forwarding c st)
  | .reader rest => s.setReader (.passing c st rest)

/-- The thread is done with its call. -/
def release (s : Client) : Thread → Client
  | .serving via => s.setServing via .idle
  | .reader rest => s.setReader (.next rest)

end Client

/-- Whether the thread passes on a held call. -/
def Thread.fromHeld : Thread → Bool
  | .serving _ => false
  | .reader _ => true

section At

variable {s : Client} {t t' : Thread} {c c' : Call} {st st' : Stage}

theorem at_goOn (h : (s.goOn t c st).At t' c' st') :
    (t' = t ∧ c' = c ∧ st' = st) ∨ s.At t' c' st' := by
  cases t with
  | serving via =>
      cases t' with
      | serving via' =>
          simp only [Client.goOn, Client.At, Client.setServing] at h ⊢
          split at h
          · rename_i hvia
            cases h
            exact Or.inl ⟨by rw [hvia], rfl, rfl⟩
          · exact Or.inr h
      | reader rest => exact Or.inr h
  | reader rest =>
      cases t' with
      | serving via' => exact Or.inr h
      | reader rest' =>
          cases h
          exact Or.inl ⟨rfl, rfl, rfl⟩

theorem at_release (h : (s.release t).At t' c' st') : t' ≠ t ∧ s.At t' c' st' := by
  cases t with
  | serving via =>
      cases t' with
      | serving via' =>
          simp only [Client.release, Client.At, Client.setServing] at h ⊢
          split at h
          · cases h
          · rename_i hvia
            exact ⟨fun heq => hvia (Thread.serving.inj heq), h⟩
      | reader rest => exact ⟨by simp, h⟩
  | reader rest =>
      cases t' with
      | serving via' => exact ⟨by simp, h⟩
      | reader rest' => cases h

/-- The reading thread goes where it has no call to pass on. -/
theorem at_setReader {r : Reader} (hr : ∀ c st rest, r ≠ .passing c st rest)
    (h : (s.setReader r).At t c st) : s.At t c st := by
  cases t with
  | serving via => exact h
  | reader rest => exact absurd h (hr c st rest)

end At

/-! ## Section 2: Where the Reading Thread Is -/

namespace Reader

/-- The calls in the reading thread's hands. -/
def calls : Reader → List Call
  | next rest => rest
  | passing c _ rest => c :: rest
  | handBack c rest => c :: rest
  | relaying p _ _ => [p.call]
  | failing waiting => waiting.map Pending.call
  | _ => []

/-- The calls taken from `pending` that wait for their answer. -/
def waiting : Reader → List Pending
  | relaying p _ _ => [p]
  | failing ps => ps
  | _ => []

/-- The serial of the reply that is being handled. -/
def handling : Reader → Option Nat
  | received m _ => if isReply m then serialOf m else none
  | registered m => serialOf m
  | replying m _ => serialOf m
  | relaying _ m _ => serialOf m
  | _ => none

/-- The host connection has ended. -/
def ended : Reader → Bool
  | closing | shutting | failPending | failing _ | endRequests .finish | telling _ .finish
  | done => true
  | _ => false

/-- The host connection was shut down. -/
def shut : Reader → Bool
  | failPending | failing _ | endRequests .finish | telling _ .finish | done => true
  | _ => false

/-- The pending calls were taken. -/
def emptied : Reader → Bool
  | failing _ | endRequests .finish | telling _ .finish | done => true
  | _ => false

/-- Between two messages, or at work on something that is no call and no reply. -/
def settled : Reader → Bool
  | recv | signal _ _ | deliver _ _ | endRequests _ | telling _ _ | closeIfDone | done => true
  | _ => false

/-- Settled, or about to look at a message that is no reply. -/
def quiet : Reader → Bool
  | received m _ => !isReply m
  | r => r.settled

theorem quiet_of_settled {r : Reader} (h : r.settled) : r.quiet := by
  cases r <;> first | exact h | cases h

end Reader

/-- A signal passed to the client from where the reading thread is, or a request the
client was told has ended. -/
def Event.ToClient (r : Reader) : Event → Prop
  | relayed m _ _ _ => ∃ fds, r = .deliver m fds
  | requestEnded _ _ => True
  | _ => False

/-- A step that has nothing to do with the calls, the portal state and the private
bus. -/
structure Quiet (s s' : Client) : Prop where
  present : s'.present = s.present
  mapped : s'.mapped = s.mapped
  gone : s'.gone = s.gone
  pending : s'.pending = s.pending
  portal : s'.portal = s.portal
  serving : s'.serving = s.serving
  calls : s'.calls = s.calls
  serial : s.serial ≤ s'.serial
  shut : s.shut → s'.shut
  log : ∃ es, s'.log = es ++ s.log ∧ ∀ e ∈ es, e.ToClient s.reader
  before : s.reader.quiet
  after : s'.reader.settled
  ended : s'.reader.ended = s.reader.ended
  stillShut : s'.reader.shut = s.reader.shut
  emptied : s'.reader.emptied = s.reader.emptied

/-! ## Section 3: Effects -/

/-- A message to the client that answers the call. -/
def Replies (c : Call) (reply : Message) : Prop :=
  isReply reply ∧ reply.replySerial = some c.msg.serial

inductive Effect (cfg : Setup) (s : Client) : Action → Client → Prop where
  -- A serving thread reads.
  | readAnswered {via : Via} {a : Arrival} (c : Call) (reply : Message)
      (hidle : s.serving via = .idle) (hid : c.id = s.calls) (hvia : c.via = via)
      (hreply : Replies c reply) :
      Effect cfg s (.read via a)
        ((Client.note { s with calls := s.calls + 1 } (.read c)).answer c reply)
  | readCall {via : Via} {a : Arrival} (c : Call) (hidle : s.serving via = .idle)
      (hid : c.id = s.calls) (hvia : c.via = via) :
      Effect cfg s (.read via a)
        ((Client.note { s with calls := s.calls + 1 } (.read c)).setServing via
          (.forwarding c .lookup))
  -- The client leaves.
  | depart : Effect cfg s .depart { s with present := false }
  | leaveUnmapped {via : Via} : Effect cfg s (.leave via) s
  | leave {via : Via} (hidle : s.serving via = .idle) :
      Effect cfg s (.leave via) (Client.setServing { s with mapped := false } via .leaving)
  | goneSet {via : Via} {ch : Choice} (hleaving : s.serving via = .leaving) :
      Effect cfg s (.serve via ch) (Client.setServing { s with gone := true } via .left)
  | left {via : Via} {ch : Choice} (hleft : s.serving via = .left) :
      Effect cfg s (.serve via ch) (s.closeIfDone.setServing via .idle)
  -- A call is passed on, by whatever thread has it.
  | found {a : Action} {t : Thread} {c : Call} (hat : s.At t c .lookup) :
      Effect cfg s a (s.goOn t c .gate)
  | elsewhere {a : Action} {t : Thread} {c : Call} (hat : s.At t c .lookup) :
      Effect cfg s a ((s.note (.finished c .elsewhere)).release t)
  | unanswerable {a : Action} {t : Thread} {c : Call} (text : String) (hat : s.At t c .lookup) :
      Effect cfg s a ((s.replyFailed c text).release t)
  | notToPortal {a : Action} {t : Thread} {c : Call} (hat : s.At t c .gate)
      (hportal : c.toPortal = false) :
      Effect cfg s a (s.goOn t c (.identify c.msg.destination))
  | heldBehind {via : Via} {ch : Choice} {c : Call} (hat : s.At (.serving via) c .gate)
      (hportal : c.toPortal) (hwait : s.portal.registering.isSome ∨ s.portal.draining) :
      Effect cfg s (.serve via ch) ((s.hold c).release (.serving via))
  | noIdentity {a : Action} {t : Thread} {c : Call} (hat : s.At t c .gate) (hportal : c.toPortal)
      (hfree : t.fromHeld = false → s.portal.registering = none ∧ s.portal.draining = false)
      (happ : s.portal.appId = none) :
      Effect cfg s a (s.goOn t c (.identify c.msg.destination))
  | sameOwner {a : Action} {t : Thread} {c : Call} (hat : s.At t c .gate) (hportal : c.toPortal)
      (hfree : t.fromHeld = false → s.portal.registering = none ∧ s.portal.draining = false)
      (happ : s.portal.appId.isSome) (howner : s.portal.owner.isSome) :
      Effect cfg s a (s.goOn t c (.identify s.portal.owner))
  | registerFailed {a : Action} {t : Thread} {c : Call} (text : String) (hat : s.At t c .gate) :
      Effect cfg s a ((s.tick.replyFailed c text).release t)
  | registerHeld {via : Via} {ch : Choice} {c : Call} (app : String)
      (hat : s.At (.serving via) c .gate) (hportal : c.toPortal)
      (hfree : s.portal.registering = none ∧ s.portal.draining = false)
      (happ : s.portal.appId = some app)
      (howner : (s.portal.owner.isSome && s.portal.owner == s.ownerOf portalName) = false)
      (hsent : ch.sent) :
      Effect cfg s (.serve via ch)
        ((((s.tick.setPortal { s.portal with registering := some s.serial }).note
          (.registerSent s.serial (register app))).hold c).release (.serving via))
  | registerAgain {ch : Choice} {c : Call} {rest : List Call} (app : String)
      (hat : s.At (.reader rest) c .gate) (hportal : c.toPortal) :
      Effect cfg s (.relay ch)
        (((s.tick.setPortal { s.portal with registering := some s.serial }).note
          (.registerSent s.serial (register app))).setReader (.handBack c rest))
  | identified {a : Action} {t : Thread} {c : Call} {dest : Option String}
      (hat : s.At t c (.identify dest)) :
      Effect cfg s a (s.goOn t c (.judge dest s.portal.appId.isSome))
  | allowed {a : Action} {t : Thread} {c : Call} {dest : Option String} {identified : Bool}
      (args : Option (List Value)) (file : Option FileRequest)
      (hat : s.At t c (.judge dest identified)) :
      Effect cfg s a ((s.note (.judged c identified)).goOn t c
        (.unlist identified file (outgoing cfg c dest args)))
  | answeredByPolicy {a : Action} {t : Thread} {c : Call} {dest : Option String}
      {identified : Bool} (reply : Message) (hat : s.At t c (.judge dest identified))
      (hreply : Replies c reply) :
      Effect cfg s a (((s.note (.judged c identified)).answer c reply).release t)
  | unlisted {a : Action} {t : Thread} {c : Call} {identified : Bool} {file : Option FileRequest}
      {out : Message} (hat : s.At t c (.unlist identified file out)) :
      Effect cfg s a ((unlist s c out).goOn t c (.send identified file out))
  | sendFailed {a : Action} {t : Thread} {c : Call} {identified : Bool}
      {file : Option FileRequest} {out : Message} (text : String)
      (hat : s.At t c (.send identified file out)) :
      Effect cfg s a ((s.tick.replyFailed c text).release t)
  | sent {a : Action} {t : Thread} {c : Call} {identified : Bool} {file : Option FileRequest}
      {out : Message} (p : Pending) (hat : s.At t c (.send identified file out))
      (hopen : s.shut = false) (hexpects : c.msg.expectsReply)
      (hcall : p.call = c) (hserial : p.callerSerial = c.msg.serial) (hvia : p.via = c.via) :
      Effect cfg s a
        (Client.release
          { s.tick.note (.sent c identified file s.serial out) with
            pending := (s.serial, p) :: s.pending } t)
  | sentNoReply {a : Action} {t : Thread} {c : Call} {identified : Bool}
      {file : Option FileRequest} {out : Message} (hat : s.At t c (.send identified file out))
      (hexpects : c.msg.expectsReply = false) :
      Effect cfg s a
        (((s.tick.note (.sent c identified file s.serial out)).note
          (.finished c .noReply)).release t)
  -- The reading thread reads.
  | received {m : Message} {fds : List Fd} (hrecv : s.reader = .recv)
      (hbus : fromHostBus s m) :
      Effect cfg s (.receive (.message m fds))
        ((s.note (.received (.message m fds))).setReader (.received m fds))
  | receivedUndecodable {u : Undecodable} (n : UInt32) (hrecv : s.reader = .recv)
      (hbus : fromHostBus s u.message) (hserial : u.message.replySerial = some n) :
      Effect cfg s (.receive (.undecodable u))
        ((s.note (.received (.undecodable u))).setReader (.replying (undecodableReply n) []))
  | receivedUnknown {u : Undecodable} (hrecv : s.reader = .recv)
      (hbus : fromHostBus s u.message) (hserial : u.message.replySerial = none) :
      Effect cfg s (.receive (.undecodable u))
        ((s.note (.received (.undecodable u))).setReader .recv)
  | close (hrecv : s.reader = .recv) : Effect cfg s .close (s.setReader .closing)
  -- The reading thread handles what it has read.
  | registerReply {ch : Choice} {m : Message} {fds : List Fd} (hreader : s.reader = .received m fds)
      (hreply : isReply m) (n : Nat) (hserial : serialOf m = some n)
      (hregistering : s.portal.registering = some n) :
      Effect cfg s (.relay ch) (s.setReader (.registered m))
  | otherReply {ch : Choice} {m : Message} {fds : List Fd} (hreader : s.reader = .received m fds)
      (hreply : isReply m)
      (hother : s.portal.registering.isSome → serialOf m ≠ s.portal.registering) :
      Effect cfg s (.relay ch) (s.setReader (.replying m fds))
  | registerAccepted {ch : Choice} {m : Message} (hreader : s.reader = .registered m)
      (hkind : m.kind = Kind.methodReturn) :
      Effect cfg s (.relay ch)
        (((s.setPortal { s.portal with
          registering := none, draining := true, owner := m.sender }).note
          (.accepted m.sender)).setReader .drain)
  | registerRefused {ch : Choice} {m : Message} (hreader : s.reader = .registered m)
      (hkind : m.kind ≠ Kind.methodReturn) :
      Effect cfg s (.relay ch)
        (((s.setPortal { s.portal with
          registering := none, draining := true, appId := none, owner := none }).note
          .refused).setReader .drain)
  | drained {ch : Choice} (hreader : s.reader = .drain) (hheld : s.portal.held = []) :
      Effect cfg s (.relay ch) ((s.setPortal { s.portal with draining := false }).setReader .recv)
  | takesHeld {ch : Choice} (hreader : s.reader = .drain) :
      Effect cfg s (.relay ch)
        ((s.setPortal { s.portal with held := [] }).setReader (.next s.portal.held))
  | passedOn {ch : Choice} (hreader : s.reader = .next []) :
      Effect cfg s (.relay ch) (s.setReader .drain)
  | passesNext {ch : Choice} (c : Call) (rest : List Call) (hreader : s.reader = .next (c :: rest)) :
      Effect cfg s (.relay ch) (s.setReader (.passing c .lookup rest))
  | handedBack {ch : Choice} (c : Call) (rest : List Call) (hreader : s.reader = .handBack c rest) :
      Effect cfg s (.relay ch)
        ((s.setPortal { s.portal with
          held := c :: rest ++ s.portal.held, draining := false }).setReader .recv)
  | unknownReply {ch : Choice} {m : Message} {fds : List Fd} (hreader : s.reader = .replying m fds)
      (hunknown : ∀ n, serialOf m = some n → ∀ p, (n, p) ∉ s.pending) :
      Effect cfg s (.relay ch) (s.setReader .recv)
  | takesPending {ch : Choice} {m : Message} {fds : List Fd} (n : Nat) (p : Pending)
      (files : List (String × FileRequest)) (requests : List String)
      (hreader : s.reader = .replying m fds) (hserial : serialOf m = some n)
      (hpending : s.pending.find? (fun e => e.1 == n) = some (n, p)) :
      Effect cfg s (.relay ch)
        (Client.setReader
          { s with pending := s.pending.eraseP (fun e => e.1 == n),
                   fileRequests := files, openRequests := requests } (.relaying p m fds))
  | replyToGone {ch : Choice} {p : Pending} {m : Message} {fds : List Fd}
      (hreader : s.reader = .relaying p m fds) (hgone : s.gone) :
      Effect cfg s (.relay ch) ((s.note (.finished p.call .gone)).setReader .closeIfDone)
  | replyRelayed {ch : Choice} {p : Pending} {m : Message} {fds : List Fd}
      (hreader : s.reader = .relaying p m fds) :
      Effect cfg s (.relay ch)
        ((s.note (.answered p.call p.via (relayedReply cfg p m))).setReader .recv)
  -- The reading thread ends.
  | unmaps {ch : Choice} (hreader : s.reader = .closing) :
      Effect cfg s (.relay ch) (Client.setReader { s with mapped := false } .shutting)
  | shutsDown {ch : Choice} (hreader : s.reader = .shutting) :
      Effect cfg s (.relay ch) (Client.setReader { s with shut := true } .failPending)
  | drainsPending {ch : Choice} (hreader : s.reader = .failPending) :
      Effect cfg s (.relay ch)
        (Client.setReader { s with pending := [] } (.failing (s.pending.map Prod.snd)))
  | failsToGone {ch : Choice} {waiting : List Pending} (hreader : s.reader = .failing waiting)
      (hgone : s.gone) :
      Effect cfg s (.relay ch)
        (Client.setReader
          { s with log := (waiting.map fun p => Event.finished p.call .gone) ++ s.log }
          (.endRequests .finish))
  | fails {ch : Choice} {waiting : List Pending} (hreader : s.reader = .failing waiting) :
      Effect cfg s (.relay ch)
        (Client.setReader
          { s with log :=
              (waiting.map fun p => Event.answered p.call p.via (noReply cfg p)) ++ s.log }
          (.endRequests .finish))
  | quiet {ch : Choice} {s' : Client} (hquiet : Quiet s s') : Effect cfg s (.relay ch) s'

/-! ## Section 4: Steps Have Effects -/

theorem replies_errorTo (c : Call) (name text : String) :
    Replies c (Message.errorTo c.msg name text) :=
  ⟨rfl, rfl⟩

theorem replies_introspectionReply (cfg : Setup) (c : Call) :
    Replies c (introspectionReply cfg c) :=
  ⟨rfl, rfl⟩

/-- The action by which a thread takes its next step. -/
def Thread.action (ch : Choice) : Thread → Action
  | .serving via => .serve via ch
  | .reader _ => .relay ch

/-- What becomes of a step of `forward`, in the thread that takes it. -/
def Client.after (s : Client) (t : Thread) (c : Call) : Outcome → Option Client
  | .next st => some (s.goOn t c st)
  | .over => some (s.release t)
  | .handBack =>
      match t with
      | .serving _ => none
      | .reader rest => some (s.setReader (.handBack c rest))

private theorem gate_effect {cfg : Setup} {s s' s'' : Client} {t : Thread} {c : Call} {ch : Choice}
    {o : Outcome} (hat : s.At t c .gate) (h : gate s t.fromHeld c ch = some (s', o))
    (hafter : s'.after t c o = some s'') : Effect cfg s (t.action ch) s'' := by
  unfold gate at h
  split at h
  -- A call to another object needs no registration.
  · rename_i hportal
    cases h
    cases hafter
    exact .notToPortal hat (by simpa using hportal)
  · rename_i hportal
    have hportal' : c.toPortal = true := by simpa using hportal
    split at h
    -- Calls wait already: this one goes behind them.
    · rename_i hwait
      cases h
      cases hafter
      cases t with
      | serving via =>
          refine .heldBehind hat hportal' ?_
          simpa [Thread.fromHeld] using hwait
      | reader rest => simp [Thread.fromHeld] at hwait
    · rename_i hwait
      have hfree : t.fromHeld = false →
          s.portal.registering = none ∧ s.portal.draining = false := by
        intro hserving
        simpa [hserving] using hwait
      split at h
      · rename_i happ
        cases h
        cases hafter
        exact .noIdentity hat hportal' hfree happ
      · rename_i app happ
        split at h
        · rename_i howner
          cases h
          cases hafter
          simp only [Bool.and_eq_true] at howner
          exact .sameOwner hat hportal' hfree (by simp [happ]) howner.1
        · rename_i howner
          split at h
          · cases h
          · split at h
            · cases h
              cases hafter
              exact .registerFailed ch.error hat
            · rename_i hsent
              have hsent' : ch.sent = true := by simpa using hsent
              have howner' : (s.portal.owner.isSome && s.portal.owner == s.ownerOf portalName) =
                  false := by simpa using howner
              cases t with
              | serving via =>
                  simp only [Thread.fromHeld, Bool.false_eq_true, if_false] at h
                  cases h
                  cases hafter
                  exact .registerHeld app hat hportal' (hfree rfl) happ howner' hsent'
              | reader rest =>
                  simp only [Thread.fromHeld, if_true] at h
                  cases h
                  cases hafter
                  exact .registerAgain app hat hportal'

private theorem judge_effect {cfg : Setup} {s s' s'' : Client} {t : Thread} {c : Call}
    {a : Action} {dest : Option String} {identified : Bool} {policy : Policy} {o : Outcome}
    (hat : s.At t c (.judge dest identified))
    (h : judge cfg s c dest identified policy = (s', o)) (hafter : s'.after t c o = some s'') :
    Effect cfg s a s'' := by
  unfold judge at h
  split at h
  · cases h
    cases hafter
    exact .allowed _ _ hat
  · cases h
    cases hafter
    exact .answeredByPolicy _ hat (replies_errorTo c _ _)
  · cases h
    cases hafter
    exact .answeredByPolicy _ hat (replies_errorTo c _ _)
  · cases h
    cases hafter
    exact .answeredByPolicy _ hat (replies_introspectionReply cfg c)

private theorem sendCall_effect {cfg : Setup} {s s' s'' : Client} {t : Thread} {c : Call}
    {a : Action} {identified : Bool} {file : Option FileRequest} {out : Message} {ch : Choice}
    {o : Outcome} (hat : s.At t c (.send identified file out))
    (h : sendCall s c identified file out ch = some (s', o))
    (hafter : s'.after t c o = some s'') : Effect cfg s a s'' := by
  unfold sendCall at h
  split at h
  · cases h
  · rename_i hcan
    split at h
    · cases h
      cases hafter
      exact .sendFailed ch.error hat
    · rename_i hsent
      simp only [Client.canSend, Bool.not_eq_true', Bool.not_eq_false, Bool.and_eq_true] at hcan hsent
      split at h
      · rename_i hexpects
        cases h
        cases hafter
        exact .sent _ hat (by simpa [hsent] using hcan.2) hexpects rfl rfl rfl
      · rename_i hexpects
        cases h
        cases hafter
        exact .sentNoReply hat (by simpa using hexpects)

theorem forwardStep_effect {cfg : Setup} {s s' s'' : Client} {t : Thread} {c : Call} {st : Stage}
    {ch : Choice} {o : Outcome} (hat : s.At t c st)
    (h : forwardStep cfg s t.fromHeld c st ch = some (s', o))
    (hafter : s'.after t c o = some s'') : Effect cfg s (t.action ch) s'' := by
  cases st with
  | lookup =>
      simp only [forwardStep] at h
      split at h
      · cases h
        cases hafter
        exact .found hat
      · split at h
        · cases h
          cases hafter
          exact .elsewhere hat
        · cases h
          cases hafter
          exact .unanswerable ch.error hat
  | gate => exact gate_effect hat h hafter
  | identify dest =>
      cases h
      cases hafter
      exact .identified hat
  | judge dest identified =>
      simp only [forwardStep, Option.some.injEq] at h
      exact judge_effect hat h hafter
  | unlist identified file out =>
      cases h
      cases hafter
      exact .unlisted hat
  | send identified file out => exact sendCall_effect hat h hafter

private theorem readStep_effect {cfg : Setup} {s s' : Client} {via : Via} {a : Arrival}
    (h : readStep cfg s via a = some s') : Effect cfg s (.read via a) s' := by
  unfold readStep at h
  split at h
  · rename_i hidle
    cases a with
    | undecodable u =>
        cases h
        exact .readAnswered _ _ hidle rfl rfl (replies_errorTo _ _ _)
    | message m fds =>
        simp only at h
        split at h
        · cases h
        · split at h
          · cases h
            exact .readAnswered _ _ hidle rfl rfl (replies_errorTo _ _ _)
          · cases h
            exact .readCall _ hidle rfl rfl
  · cases h

private theorem leaveStep_effect {cfg : Setup} {s s' : Client} {via : Via}
    (h : leaveStep s via = some s') : Effect cfg s (.leave via) s' := by
  unfold leaveStep at h
  split at h
  · rename_i hidle
    split at h
    · cases h
      exact .leave hidle
    · cases h
      exact .leaveUnmapped
  · cases h

private theorem serveStep_effect {cfg : Setup} {s s' : Client} {via : Via} {ch : Choice}
    (h : serveStep cfg s via ch = some s') : Effect cfg s (.serve via ch) s' := by
  unfold serveStep at h
  split at h
  · cases h
  · rename_i c st hat
    obtain ⟨⟨t, o⟩, hforward, hafter⟩ := Option.bind_eq_some_iff.mp h
    have hthread : s.At (.serving via) c st := hat
    refine forwardStep_effect hthread hforward ?_
    cases o <;> exact hafter
  · rename_i hleaving
    cases h
    exact .goneSet hleaving
  · rename_i hleft
    cases h
    exact .left hleft

private theorem receiveStep_effect {cfg : Setup} {s s' : Client} {a : Arrival}
    (h : receiveStep s a = some s') : Effect cfg s (.receive a) s' := by
  unfold receiveStep at h
  split at h
  · rename_i hrecv
    split at h
    · cases h
    · rename_i hbus
      simp only [Bool.not_eq_true', Bool.not_eq_false] at hbus
      cases a with
      | message m fds =>
          cases h
          exact .received hrecv hbus
      | undecodable u =>
          simp only at h
          split at h
          · rename_i n hserial
            cases h
            exact .receivedUndecodable n hrecv hbus hserial
          · rename_i hserial
            cases h
            exact .receivedUnknown hrecv hbus hserial
  · cases h

/-- A quiet step of the reading thread, from what it changes. -/
private theorem quiet_of {s : Client} {owners : List (String × String)}
    {openRequests : List String} {fileRequests : List (String × FileRequest)} {serial : Nat}
    {r : Reader} (es : List Event) (hserial : s.serial ≤ serial) (hes : ∀ e ∈ es, e.ToClient s.reader)
    (hbefore : s.reader.quiet) (hafter : r.settled) (hended : r.ended = s.reader.ended)
    (hshut : r.shut = s.reader.shut) (hemptied : r.emptied = s.reader.emptied) :
    Quiet s { s with owners := owners, openRequests := openRequests, fileRequests := fileRequests,
                     serial := serial, log := es ++ s.log, reader := r } :=
  ⟨rfl, rfl, rfl, rfl, rfl, rfl, rfl, hserial, id, ⟨es, rfl, hes⟩, hbefore, hafter, hended, hshut,
    hemptied⟩

private theorem dispatch_effect {cfg : Setup} {s s' : Client} {m : Message} {fds : List Fd}
    {ch : Choice} (hreader : s.reader = .received m fds) (h : dispatch s m fds ch = some s') :
    Effect cfg s (.relay ch) s' := by
  unfold dispatch at h
  split at h
  -- A reply is the one to `Register`, or is matched with a pending call.
  · rename_i hreply
    split at h
    · rename_i hregistering
      cases h
      simp only [Bool.and_eq_true, beq_iff_eq] at hregistering
      obtain ⟨hsome, hserial⟩ := hregistering
      obtain ⟨n, hn⟩ := Option.isSome_iff_exists.mp hsome
      exact .registerReply hreader hreply n (hserial.trans hn) hn
    · rename_i hother
      cases h
      refine .otherReply hreader hreply ?_
      intro hsome hserial
      exact hother (by simp [hsome, hserial])
  -- Anything else leaves the calls alone.
  · rename_i hreply
    have hbefore : s.reader.quiet := by simpa [hreader, Reader.quiet] using hreply
    have hquiet : ∀ (owners : List (String × String)) (serial : Nat) (r : Reader),
        s.serial ≤ serial → r.settled → r.ended = false → r.shut = false → r.emptied = false →
        Effect cfg s (.relay ch) { s with owners := owners, serial := serial, reader := r } := by
      intro owners serial r hserial hafter hended hshut hemptied
      refine .quiet (quiet_of [] hserial (by simp) hbefore hafter ?_ ?_ ?_)
      · rw [hended, hreader]
        rfl
      · rw [hshut, hreader]
        rfl
      · rw [hemptied, hreader]
        rfl
    split at h
    · split at h
      · split at h
        · split at h
          · split at h <;>
            · cases h
              exact hquiet _ _ _ (Nat.le_refl _) rfl rfl rfl rfl
          · cases h
            exact hquiet _ _ _ (Nat.le_refl _) rfl rfl rfl rfl
        · cases h
          exact hquiet _ _ _ (Nat.le_refl _) rfl rfl rfl rfl
      · cases h
        exact hquiet _ _ _ (Nat.le_refl _) rfl rfl rfl rfl
    · split at h
      · split at h
        · cases h
          exact hquiet _ _ _ (Nat.le_succ _) rfl rfl rfl rfl
        · cases h
      · cases h
        exact hquiet _ _ _ (Nat.le_refl _) rfl rfl rfl rfl

/-- The entry that is found is the one erased. -/
theorem pending_eraseP {pending : List (Nat × Pending)} {n : Nat} {p : Pending}
    (hfind : pending.find? (fun e => e.1 == n) = some (n, p)) :
    ((n, p) :: pending.eraseP fun e => e.1 == n).Perm pending := by
  obtain ⟨_, before, after, rfl, hbefore⟩ := List.find?_eq_some_iff_append.mp hfind
  have hnone : ∀ e ∈ before, ¬ (e.1 == n) = true := fun e he => by simpa using hbefore e he
  have herase : List.eraseP (fun e => e.1 == n) (before ++ (n, p) :: after) = before ++ after := by
    rw [List.eraseP_append_right _ hnone]
    simp
  rw [herase]
  exact List.perm_middle.symm

private theorem takePending_effect {cfg : Setup} {s : Client} {m : Message} {fds : List Fd}
    {ch : Choice} (hreader : s.reader = .replying m fds) :
    Effect cfg s (.relay ch) (takePending s m fds) := by
  unfold takePending
  split
  · rename_i hserial
    exact .unknownReply hreader (by simp [hserial])
  · rename_i n hserial
    split
    · rename_i hnone
      refine .unknownReply hreader ?_
      intro n' hn' p hp
      cases hserial.symm.trans hn'
      simpa using List.find?_eq_none.mp hnone (n, p) hp
    · rename_i n' p hsome
      have hkey : n' = n := by simpa using List.find?_some hsome
      subst hkey
      cases hopens : p.opens <;> cases hfile : p.file <;> cases hhandle : handleOf m <;>
        exact .takesPending n' p _ _ hreader hserial hsome

private theorem registeredStep_effect {cfg : Setup} {s : Client} {m : Message} {ch : Choice}
    (hreader : s.reader = .registered m) : Effect cfg s (.relay ch) (registeredStep s m) := by
  unfold registeredStep
  split
  · rename_i hkind
    exact .registerAccepted hreader hkind
  · rename_i hkind
    exact .registerRefused hreader hkind

private theorem drainStep_effect {cfg : Setup} {s : Client} {ch : Choice}
    (hreader : s.reader = .drain) : Effect cfg s (.relay ch) (drainStep s) := by
  unfold drainStep
  split
  · rename_i hheld
    exact .drained hreader hheld
  · exact .takesHeld hreader

private theorem relayStep_effect {cfg : Setup} {s : Client} {p : Pending} {m : Message}
    {fds : List Fd} {ch : Choice} (hreader : s.reader = .relaying p m fds) :
    Effect cfg s (.relay ch) (relayStep cfg s p m) := by
  unfold relayStep
  split
  · rename_i hgone
    exact .replyToGone hreader hgone
  · exact .replyRelayed hreader

private theorem failStep_effect {cfg : Setup} {s : Client} {waiting : List Pending} {ch : Choice}
    (hreader : s.reader = .failing waiting) : Effect cfg s (.relay ch) (failStep cfg s waiting) := by
  simp only [failStep]
  split
  · rename_i hgone
    exact .failsToGone hreader hgone
  · exact .fails hreader

private theorem signalStep_quiet {s : Client} {m : Message} {fds : List Fd}
    (hreader : s.reader = .signal m fds) : Quiet s (signalStep s m fds) := by
  have hquiet : ∀ (openRequests : List String) (r : Reader), r.settled → r.ended = false →
      r.shut = false → r.emptied = false →
      Quiet s { s with openRequests := openRequests, reader := r } := by
    intro openRequests r hafter hended hshut hemptied
    refine quiet_of [] (Nat.le_refl _) (by simp) (by rw [hreader]; rfl) hafter ?_ ?_ ?_
    · rw [hended, hreader]
      rfl
    · rw [hshut, hreader]
      rfl
    · rw [hemptied, hreader]
      rfl
  unfold signalStep
  cases m.path with
  | none =>
      simp only
      split
      · exact hquiet s.openRequests .recv rfl rfl rfl rfl
      · exact hquiet s.openRequests (.deliver m fds) rfl rfl rfl rfl
  | some path =>
      simp only
      split
      · exact hquiet s.openRequests .recv rfl rfl rfl rfl
      · split
        · exact hquiet _ (.deliver m fds) rfl rfl rfl rfl
        · exact hquiet s.openRequests (.deliver m fds) rfl rfl rfl rfl

theorem takeFileRequest_eq (s : Client) (m : Message) :
    ∃ fileRequests, takeFileRequest s m = { s with fileRequests := fileRequests } := by
  unfold takeFileRequest
  split
  · exact ⟨_, rfl⟩
  · exact ⟨s.fileRequests, rfl⟩

private theorem deliverStep_quiet {cfg : Setup} {s : Client} {m : Message} {fds : List Fd}
    {expose : Expose} (hreader : s.reader = .deliver m fds) :
    Quiet s (deliverStep cfg s m expose) := by
  have hquiet : ∀ (fileRequests : List (String × FileRequest)) (es : List Event) (r : Reader),
      (∀ e ∈ es, e.ToClient s.reader) → r.settled → r.ended = false → r.shut = false → r.emptied = false →
      Quiet s { s with fileRequests := fileRequests, log := es ++ s.log, reader := r } := by
    intro fileRequests es r hes hafter hended hshut hemptied
    refine quiet_of es (Nat.le_refl _) hes (by rw [hreader]; rfl) hafter ?_ ?_ ?_
    · rw [hended, hreader]
      rfl
    · rw [hshut, hreader]
      rfl
    · rw [hemptied, hreader]
      rfl
  obtain ⟨fileRequests, hfiles⟩ := takeFileRequest_eq s m
  unfold deliverStep
  rw [hfiles]
  split
  · exact hquiet s.fileRequests [] _ (by simp) rfl rfl rfl rfl
  · split
    · exact hquiet fileRequests [] _ (by simp) rfl rfl rfl rfl
    · exact hquiet fileRequests [.relayed m _ expose _] _ (by simp [Event.ToClient, hreader]) rfl rfl rfl rfl

private theorem tellStep_quiet {cfg : Setup} {s : Client} {paths : List String}
    {after : AfterRequests} (hreader : s.reader = .telling paths after) :
    Quiet s (tellStep cfg s paths after) := by
  have hquiet : ∀ es : List Event, (∀ e ∈ es, e.ToClient s.reader) →
      Quiet s { s with log := es ++ s.log, reader := afterRequests after } := by
    intro es hes
    cases after <;>
      exact quiet_of es (Nat.le_refl _) hes (by rw [hreader]; rfl) rfl (by rw [hreader]; rfl)
        (by rw [hreader]; rfl) (by rw [hreader]; rfl)
  simp only [tellStep]
  split
  · exact hquiet [] (by simp)
  · refine hquiet _ ?_
    intro e he
    obtain ⟨p, _, rfl⟩ := List.mem_map.mp he
    trivial

private theorem closeIfDone_quiet {s : Client} (hreader : s.reader = .closeIfDone) :
    Quiet s (s.closeIfDone.setReader .recv) := by
  simp only [Client.closeIfDone]
  split
  all_goals
    exact ⟨rfl, rfl, rfl, rfl, rfl, rfl, rfl, Nat.le_refl _, by simp [Client.setReader],
      ⟨[], rfl, by simp⟩, by rw [hreader]; rfl, rfl, by rw [hreader]; rfl, by rw [hreader]; rfl,
      by rw [hreader]; rfl⟩

private theorem endRequests_quiet {s : Client} {after : AfterRequests}
    (hreader : s.reader = .endRequests after) :
    Quiet s (Client.setReader { s with openRequests := [] } (.telling s.openRequests after)) := by
  cases after <;>
    exact quiet_of [] (Nat.le_refl _) (by simp) (by rw [hreader]; rfl) rfl (by rw [hreader]; rfl)
      (by rw [hreader]; rfl) (by rw [hreader]; rfl)

private theorem relayerStep_effect {cfg : Setup} {s s' : Client} {ch : Choice}
    (h : relayerStep cfg s ch = some s') : Effect cfg s (.relay ch) s' := by
  unfold relayerStep at h
  -- By the place of the reading thread, in the order of `relayerStep`.
  split at h
  · cases h
  · rename_i m fds hreader
    exact dispatch_effect hreader h
  · rename_i m hreader
    cases h
    exact registeredStep_effect hreader
  · rename_i hreader
    cases h
    exact drainStep_effect hreader
  · rename_i hreader
    cases h
    exact .passedOn hreader
  · rename_i c rest hreader
    cases h
    exact .passesNext c rest hreader
  · rename_i c st rest hreader
    obtain ⟨⟨t, o⟩, hforward, hafter⟩ := Option.map_eq_some_iff.mp h
    have hthread : s.At (.reader rest) c st := hreader
    cases o <;> exact forwardStep_effect hthread hforward (congrArg some hafter)
  · rename_i c rest hreader
    cases h
    exact .handedBack c rest hreader
  · rename_i m fds hreader
    cases h
    exact takePending_effect hreader
  · rename_i p m fds hreader
    cases h
    exact relayStep_effect hreader
  · rename_i m fds hreader
    cases h
    exact .quiet (signalStep_quiet hreader)
  · rename_i m fds hreader
    cases h
    exact .quiet (deliverStep_quiet hreader)
  · rename_i after hreader
    cases h
    exact .quiet (endRequests_quiet hreader)
  · rename_i paths after hreader
    cases h
    exact .quiet (tellStep_quiet hreader)
  · rename_i hreader
    cases h
    exact .quiet (closeIfDone_quiet hreader)
  · rename_i hreader
    cases h
    exact .unmaps hreader
  · rename_i hreader
    cases h
    exact .shutsDown hreader
  · rename_i hreader
    cases h
    exact .drainsPending hreader
  · rename_i waiting hreader
    cases h
    exact failStep_effect hreader
  · cases h

/-- Every step of the system is one of the effects. -/
theorem step_effect {cfg : Setup} {s s' : Client} {a : Action} (h : step cfg s a = some s') :
    Effect cfg s a s' := by
  cases a with
  | read via a => exact readStep_effect h
  | depart =>
      cases h
      exact .depart
  | leave via => exact leaveStep_effect h
  | serve via ch => exact serveStep_effect h
  | receive a => exact receiveStep_effect h
  | close =>
      simp only [step, closeStep] at h
      split at h
      · rename_i hrecv
        cases h
        exact .close hrecv
      · cases h
  | relay ch => exact relayerStep_effect h

/-! ## Section 5: The Log -/

theorem log_goOn (s : Client) (t : Thread) (c : Call) (st : Stage) : (s.goOn t c st).log = s.log := by
  cases t <;> rfl

theorem log_release (s : Client) (t : Thread) : (s.release t).log = s.log := by
  cases t <;> rfl

theorem serial_release (s : Client) (t : Thread) : (s.release t).serial = s.serial := by
  cases t <;> rfl

theorem pending_release (s : Client) (t : Thread) : (s.release t).pending = s.pending := by
  cases t <;> rfl

theorem unlist_eq (s : Client) (c : Call) (out : Message) :
    ∃ openRequests, unlist s c out = { s with openRequests := openRequests } := by
  unfold unlist
  split
  · split
    · exact ⟨_, rfl⟩
    · exact ⟨s.openRequests, rfl⟩
  · exact ⟨s.openRequests, rfl⟩

theorem closeIfDone_eq (s : Client) :
    ∃ shut, s.closeIfDone = { s with shut := shut } ∧ (s.shut → shut) := by
  simp only [Client.closeIfDone]
  split
  · exact ⟨true, rfl, fun _ => rfl⟩
  · exact ⟨s.shut, rfl, id⟩

theorem log_unlist (s : Client) (c : Call) (out : Message) : (unlist s c out).log = s.log := by
  unfold unlist
  split
  · split <;> rfl
  · rfl

theorem log_closeIfDone (s : Client) : s.closeIfDone.log = s.log := by
  simp only [Client.closeIfDone]
  split <;> rfl

/-- What an event noted in a step tells of the step. -/
def Event.From (s s' : Client) (a : Action) : Event → Prop
  | read c => c.id = s.calls ∧ s'.calls = s.calls + 1
  | answered c via reply =>
      (c.msg.expectsReply ∧ via = c.via ∧ Replies c reply) ∨
        ∃ p ∈ s.reader.waiting, c = p.call ∧ via = p.via ∧ reply.replySerial = some p.callerSerial ∧
          (isReply reply ∨ ∃ m fds, s.reader = .relaying p m fds ∧ reply.kind = m.kind)
  | finished c why =>
      match why with
      | .noReply => c.msg.expectsReply = false
      | .gone => s.gone
      | .elsewhere => True
  | received b => a = .receive b
  | sent c _ _ n _ =>
      n = s.serial ∧ s'.serial = s.serial + 1 ∧
        (c.msg.expectsReply → ∃ p, (n, p) ∈ s'.pending ∧ p.call = c)
  | relayed m _ _ _ => ∃ ch fds, a = .relay ch ∧ s.reader = .deliver m fds
  | _ => True

/-- An answer notes one event, of the call that is answered. -/
theorem log_answer (s : Client) (c : Call) (reply : Message) :
    ∃ e, (s.answer c reply).log = e :: s.log ∧
      ((e = .answered c c.via reply ∧ c.msg.expectsReply) ∨
        (e = .finished c .noReply ∧ c.msg.expectsReply = false)) := by
  refine ⟨_, rfl, ?_⟩
  split
  · rename_i hexpects
    exact Or.inl ⟨rfl, hexpects⟩
  · rename_i hexpects
    exact Or.inr ⟨rfl, by simpa using hexpects⟩

private theorem from_answer {s s' t : Client} {a : Action} (c : Call) (reply : Message)
    (hreply : Replies c reply) :
    ∃ e, (t.answer c reply).log = e :: t.log ∧ e.From s s' a := by
  obtain ⟨e, hlog, ⟨rfl, hexpects⟩ | ⟨rfl, hexpects⟩⟩ := log_answer t c reply
  · exact ⟨_, hlog, Or.inl ⟨hexpects, rfl, hreply⟩⟩
  · exact ⟨_, hlog, hexpects⟩

theorem relayedReply_eq (cfg : Setup) (p : Pending) (m : Message) :
    (relayedReply cfg p m).kind = m.kind ∧
      (relayedReply cfg p m).replySerial = some p.callerSerial := by
  unfold relayedReply
  simp only
  split
  · obtain ⟨path, signature, body, heq⟩ := rewritePaths_eq
      { kind := m.kind, flags := flagNoReplyExpected, errorName := m.errorName,
        replySerial := some p.callerSerial, destination := some cfg.name,
        signature := m.signature, body := m.body } cfg.hostSeg cfg.privateSeg
    rw [heq]
    exact ⟨rfl, rfl⟩
  · exact ⟨rfl, rfl⟩

/-- The log only grows, by events of the step. -/
theorem effect_log {cfg : Setup} {s s' : Client} {a : Action} (heff : Effect cfg s a s') :
    ∃ es, s'.log = es ++ s.log ∧ ∀ e ∈ es, e.From s s' a := by
  cases heff with
  | readAnswered c reply _ hid _ hreply =>
      obtain ⟨e, hlog, he⟩ :=
        from_answer (t := Client.note { s with calls := s.calls + 1 } (.read c)) c reply hreply
      refine ⟨[e, .read c], hlog, ?_⟩
      simp only [List.mem_cons, List.not_mem_nil, or_false, forall_eq_or_imp, forall_eq]
      exact ⟨he, hid, rfl⟩
  | readCall c _ hid _ => exact ⟨[.read c], rfl, by simp [Event.From, hid]; rfl⟩
  | unanswerable text _ =>
      obtain ⟨e, hlog, he⟩ := from_answer (t := s) _ _ (replies_errorTo _ _ _)
      exact ⟨[e], by rw [log_release]; exact hlog, by simpa using he⟩
  | registerFailed text _ | sendFailed text _ =>
      obtain ⟨e, hlog, he⟩ := from_answer (t := s.tick) _ _ (replies_errorTo _ _ _)
      exact ⟨[e], by rw [log_release]; exact hlog, by simpa using he⟩
  | answeredByPolicy reply _ hreply =>
      obtain ⟨e, hlog, he⟩ := from_answer (t := s.note (.judged _ _)) _ reply hreply
      refine ⟨[e, .judged _ _], by rw [log_release]; exact hlog, ?_⟩
      simp only [List.mem_cons, List.not_mem_nil, or_false, forall_eq_or_imp, forall_eq]
      exact ⟨he, trivial⟩
  | left _ => exact ⟨[], log_closeIfDone s, by simp⟩
  | found _ | notToPortal _ _ | noIdentity _ _ _ _ | sameOwner _ _ _ _ _ | identified _ =>
      exact ⟨[], log_goOn s _ _ _, by simp⟩
  | unlisted _ => exact ⟨[], by rw [log_goOn, log_unlist]; rfl, by simp⟩
  | allowed _ _ _ => exact ⟨[_], log_goOn _ _ _ _, by simp [Event.From]⟩
  | elsewhere _ => exact ⟨[_], log_release _ _, by simp [Event.From]⟩
  | sent p hat _ _ hcall _ _ =>
      refine ⟨[_], log_release _ _, ?_⟩
      rw [List.forall_mem_singleton]
      exact ⟨rfl, serial_release _ _, fun _ => ⟨p, by rw [pending_release]; exact List.mem_cons_self,
        hcall⟩⟩
  | sentNoReply _ hexpects =>
      refine ⟨[_, _], log_release _ _, ?_⟩
      simp only [List.mem_cons, List.not_mem_nil, or_false, forall_eq_or_imp, forall_eq]
      refine ⟨hexpects, rfl, serial_release _ _, fun hreply => ?_⟩
      rw [hexpects] at hreply
      cases hreply
  | received _ _ | receivedUndecodable _ _ _ _ | receivedUnknown _ _ _ =>
      exact ⟨[_], rfl, by simp [Event.From]⟩
  | replyToGone _ hgone => exact ⟨[_], rfl, by simpa [Event.From] using hgone⟩
  | replyRelayed hreader =>
      refine ⟨[_], rfl, ?_⟩
      rw [List.forall_mem_singleton]
      exact Or.inr ⟨_, by rw [hreader]; exact List.mem_singleton_self _, rfl, rfl,
        (relayedReply_eq cfg _ _).2, Or.inr ⟨_, _, hreader, (relayedReply_eq cfg _ _).1⟩⟩
  | failsToGone hreader hgone =>
      refine ⟨_, rfl, ?_⟩
      intro e he
      obtain ⟨p, _, rfl⟩ := List.mem_map.mp he
      exact hgone
  | fails hreader =>
      refine ⟨_, rfl, ?_⟩
      intro e he
      obtain ⟨p, hp, rfl⟩ := List.mem_map.mp he
      exact Or.inr ⟨p, by rw [hreader]; exact hp, rfl, rfl, rfl, Or.inl rfl⟩
  | quiet hquiet =>
      obtain ⟨es, hlog, hes⟩ := hquiet.log
      refine ⟨es, hlog, ?_⟩
      intro e he
      have hclient := hes e he
      cases e with
      | relayed m args expose out =>
          obtain ⟨fds, hreader⟩ := hclient
          exact ⟨_, fds, rfl, hreader⟩
      | requestEnded path out => trivial
      | _ => cases hclient
  | registerHeld _ _ _ _ _ _ _ | registerAgain _ _ _ | registerAccepted _ _
  | registerRefused _ _ => exact ⟨[_], rfl, by simp [Event.From]⟩
  | _ => exact ⟨[], rfl, by simp⟩

/-! ## Section 6: What Passing a Call On Leaves Alone -/

section Frame

variable {cfg : Setup} {s r : Client} {c : Call} {st : Stage}

/-- What passing a call on does before the request list and the host are touched. -/
def Stage.early : Stage → Bool
  | .unlist _ _ _ | .send _ _ _ => false
  | _ => true

theorem forwardStep_early {fromHeld : Bool} {ch : Choice} {o : Outcome} (hst : st.early)
    (h : forwardStep cfg s fromHeld c st ch = some (r, o)) :
    ∃ portal log serial, r = { s with portal := portal, log := log, serial := serial } ∧
      s.serial ≤ serial ∧ ∀ n, portal.registering = some n →
        s.portal.registering = some n ∨ (n = s.serial ∧ s.serial < serial) := by
  have hsame : ∀ portal log serial, s.serial ≤ serial →
      portal.registering = s.portal.registering →
      r = { s with portal := portal, log := log, serial := serial } →
      ∃ portal log serial, r = { s with portal := portal, log := log, serial := serial } ∧
        s.serial ≤ serial ∧ ∀ n, portal.registering = some n →
          s.portal.registering = some n ∨ (n = s.serial ∧ s.serial < serial) := by
    intro portal log serial hserial hregistering hr
    exact ⟨portal, log, serial, hr, hserial, fun n hn => Or.inl (hregistering.symm.trans hn)⟩
  cases st with
  | lookup =>
      simp only [forwardStep] at h
      split at h
      · cases h
        exact hsame s.portal s.log s.serial (Nat.le_refl _) rfl rfl
      · split at h
        all_goals
          cases h
          exact hsame s.portal _ s.serial (Nat.le_refl _) rfl rfl
  | gate =>
      simp only [forwardStep, gate] at h
      split at h
      · cases h
        exact hsame s.portal s.log s.serial (Nat.le_refl _) rfl rfl
      split at h
      · cases h
        exact hsame { s.portal with held := s.portal.held ++ [c] } s.log s.serial (Nat.le_refl _)
          rfl rfl
      split at h
      · cases h
        exact hsame s.portal s.log s.serial (Nat.le_refl _) rfl rfl
      split at h
      · cases h
        exact hsame s.portal s.log s.serial (Nat.le_refl _) rfl rfl
      split at h
      · cases h
      split at h
      · cases h
        exact hsame s.portal _ (s.serial + 1) (Nat.le_succ _) rfl rfl
      -- A `Register` takes the serial.
      split at h
      · cases h
        exact ⟨{ s.portal with registering := some s.serial }, _, s.serial + 1, rfl, Nat.le_succ _,
          fun n hn => Or.inr ⟨(Option.some.inj hn).symm, Nat.lt_succ_self _⟩⟩
      · cases h
        exact ⟨{ s.portal with registering := some s.serial, held := s.portal.held ++ [c] }, _,
          s.serial + 1, rfl, Nat.le_succ _,
          fun n hn => Or.inr ⟨(Option.some.inj hn).symm, Nat.lt_succ_self _⟩⟩
  | identify dest =>
      cases h
      exact hsame s.portal s.log s.serial (Nat.le_refl _) rfl rfl
  | judge dest identified =>
      simp only [forwardStep, judge, Option.some.injEq] at h
      split at h
      all_goals
        cases h
        exact hsame s.portal _ s.serial (Nat.le_refl _) rfl rfl
  | unlist identified file out => cases hst
  | send identified file out => cases hst

theorem forwardStep_frame {fromHeld : Bool} {ch : Choice} {o : Outcome}
    (h : forwardStep cfg s fromHeld c st ch = some (r, o)) :
    ∃ portal log serial pending openRequests,
      r = { s with portal := portal, log := log, serial := serial, pending := pending,
                   openRequests := openRequests } ∧ s.serial ≤ serial := by
  cases st with
  | unlist identified file out =>
      cases h
      obtain ⟨openRequests, hnow⟩ := unlist_eq s c out
      exact ⟨s.portal, s.log, s.serial, s.pending, openRequests, hnow, Nat.le_refl _⟩
  | send identified file out =>
      simp only [forwardStep, sendCall] at h
      split at h
      · cases h
      split at h
      · cases h
        exact ⟨_, _, _, _, _, rfl, Nat.le_succ _⟩
      split at h
      all_goals
        cases h
        exact ⟨_, _, _, _, _, rfl, Nat.le_succ _⟩
  | _ =>
      obtain ⟨portal, log, serial, rfl, hserial, _⟩ := forwardStep_early rfl h
      exact ⟨portal, log, serial, s.pending, s.openRequests, rfl, hserial⟩

end Frame

end Psbox.Gateway
