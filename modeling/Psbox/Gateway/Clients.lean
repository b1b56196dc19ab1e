import Mathlib.Logic.Function.Basic
import Mathlib.Logic.Relation
import Psbox.Gateway.Owners

/-!
# The Clients of the Gateway

The gateway makes a host connection for each client that calls it. Calls are read on several
connections at once, clients leave, and each step of `client()` may fail: `creating` is held
while a connection is set up, the caller is looked for on the bus once it is in the map, and
the thread that reads the connection takes it out again when it ends.

The model has the private bus, the map, the threads that are in `client()` or hold what it
returned, the thread that handles departures, and of each host connection what the others see
of it (`HostConn`). `step_hostMoves` connects it with the steps of one client: whatever these do to
a connection is among the moves of it here. `one_each` says for which runs a client has one
connection, and none is left behind.
-/

namespace Psbox.Gateway

open Psbox.DBus Psbox.Portal Psbox.Foundations

/-! ## Section 1: A Host Connection -/

/-- Where `serve_host` is with a connection. -/
inductive Serve where
  | unstarted
  | reading
  /-- `recv` has failed. -/
  | ended
  /-- The name was taken out of the map. -/
  | unlisted
  | done
  deriving DecidableEq

structure HostConn where
  /-- The client's unique name on the private bus. -/
  name : String
  /-- Neither side has shut it down. -/
  up : Bool := true
  gone : Bool := false
  /-- An OpenURI call or request waits for an answer. -/
  opens : Bool := false
  /-- `serve_host` has read what may have been the last answer, and looks next whether the
  connection is needed. -/
  looks : Bool := false
  serve : Serve := .unstarted
  deriving DecidableEq

/-- What happens to a host connection. -/
inductive HostMove where
  /-- A call that OpenURI waits for is noted. -/
  | opens
  /-- `serve_host` reads a reply or a signal, after which something waits or not. -/
  | answered (waiting : Bool)
  /-- `serve_host` calls `close_if_done` after it, where the client has left. -/
  | check
  /-- A `Close` of the client takes its request off the list, after which something waits or not. -/
  | closes (waiting : Bool)
  /-- The host ends the connection. -/
  | close
  /-- `serve_host` goes on. -/
  | serve

namespace HostConn

/-- The client has left the private bus. -/
def mark (h : HostConn) : HostConn :=
  { h with gone := true }

/-- `close_if_done`. -/
def closeIfDone (h : HostConn) : HostConn :=
  if h.gone && !h.opens then { h with up := false } else h

def move (h : HostConn) : HostMove → Option HostConn
  | .opens => some { h with opens := true }
  | .answered waiting =>
      if h.serve = .reading ∧ h.looks = false then some { h with opens := waiting, looks := true }
      else none
  | .check => if h.looks then some { h.closeIfDone with looks := false } else none
  | .closes waiting => some { h with opens := waiting }
  | .close => some { h with up := false }
  | .serve =>
      match h.serve with
      -- What waits on a closed connection is never answered.
      | .reading => if h.up || h.looks then none else some { h with serve := .ended, opens := false }
      | .ended => some { h with serve := .unlisted }
      | .unlisted => some { h with serve := .done, up := false }
      | _ => none

/-- The client has left, and OpenURI keeps the connection: something waits for an answer, or what
may have been the last answer was read, and `serve_host` looks at nothing else before. -/
def KeptOpen (h : HostConn) : Prop :=
  h.gone ∧ (h.opens ∨ h.looks)

end HostConn

/-! ## Section 2: The Steps of One Client -/

/-- Where the thread is, as the others see it. -/
def Reader.seen : Reader → Serve
  | .closing => .ended
  | .shutting => .unlisted
  | r => if r.ended then .done else .reading

/-- The thread has read a reply, a signal or that the portal has gone, and comes to
`close_if_done` if the client has left. -/
def Reader.looks : Reader → Bool
  | .relaying .. | .deliver .. | .telling _ .closeIfDone | .closeIfDone => true
  | _ => false

theorem Reader.ended_eq (r : Reader) : r.ended = (r.seen != .reading) := by
  cases r with
  | endRequests after | telling _ after => cases after <;> rfl
  | _ => rfl

/-- What keeps the connection of a client that has left. -/
def Client.opensUri (s : Client) : Bool :=
  (s.pending.any fun e => e.2.opens) || !s.openRequests.isEmpty

/-- The connection as the other threads see it. -/
def Client.shown (s : Client) (name : String) : HostConn :=
  { name := name
    up := !s.shut && !s.reader.ended
    gone := s.gone
    opens := s.opensUri && !s.reader.ended
    looks := s.reader.looks
    serve := s.reader.seen }

/-- A step takes the request of a `Close` off the list, which is yet to be sent. -/
def Client.Unlists (s s' : Client) : Prop :=
  ∃ t c identified file out, s.At t c (.unlist identified file out) ∧ c.via = .portal ∧
    out.isMember "org.freedesktop.portal.Request" "Close" ∧
    s' = (unlist s c out).goOn t c (.send identified file out)

/-- Any number of moves of a connection, with a `Close` among them or not. The thread that
handles departures marks it, and calls `close_if_done`. -/
def HostConn.Moves (closes : Prop) : HostConn → HostConn → Prop :=
  Relation.ReflTransGen fun h h' =>
    (∃ m, ((∃ waiting, m = .closes waiting) → closes) ∧ h.move m = some h') ∨
      h' = h.mark ∨ h' = h.closeIfDone

namespace HostConn

variable {closes : Prop} {h h' : HostConn}

theorem Moves.same (heq : h' = h) : Moves closes h h' :=
  heq ▸ .refl

theorem Moves.move {m : HostMove} (hopen : ∀ waiting, m ≠ .closes waiting) (hmove : h.move m = some h') :
    Moves closes h h' :=
  .single (Or.inl ⟨m, fun ⟨waiting, hm⟩ => absurd hm (hopen waiting), hmove⟩)

theorem Moves.opens {waiting : Bool} (hmono : h.opens → waiting) :
    Moves closes h { h with opens := waiting } := by
  cases waiting with
  | true => exact .move (m := .opens) (fun _ hm => by cases hm) rfl
  | false =>
      refine .same ?_
      have hnone : h.opens = false := by simpa using hmono
      rw [← hnone]

end HostConn

section Shown

variable {s s₁ s' : Client} {t : Thread} {c : Call} {st st' : Stage} {name : String} {closes : Prop}

/-- `close_if_done` is that of the connection. -/
theorem shown_closeIfDone (s : Client) (name : String) :
    s.closeIfDone.shown name = (s.shown name).closeIfDone := by
  have hdone : (!(s.pending.any fun e => e.2.opens) && s.openRequests.isEmpty) = !s.opensUri := by
    simp [Client.opensUri]
  unfold Client.closeIfDone HostConn.closeIfDone
  rw [hdone]
  cases hgone : s.gone with
  | false => simp [Client.shown, hgone]
  | true =>
      cases hopens : s.opensUri with
      | true => cases hended : s.reader.ended <;> simp [Client.shown, hopens, hgone, hended]
      | false =>
          rw [if_pos (by simp), if_pos (by simp [Client.shown, hgone, hopens])]
          simp [Client.shown, Client.opensUri, hgone]

/-- The others see what they saw. -/
theorem shown_congr (hgone : s'.gone = s.gone) (hshut : s'.shut = s.shut)
    (hopens : s'.opensUri = s.opensUri) (hseen : s'.reader.seen = s.reader.seen)
    (hlooks : s'.reader.looks = s.reader.looks) : s'.shown name = s.shown name := by
  unfold Client.shown
  rw [Reader.ended_eq, Reader.ended_eq, hgone, hshut, hopens, hseen, hlooks]

/-- The thread of a call goes on with it, and the others see only what it noted. -/
theorem shown_goOn (hat : s.At t c st) (hgone : s₁.gone = s.gone) (hshut : s₁.shut = s.shut)
    (hreader : s₁.reader = s.reader) :
    (s₁.goOn t c st').shown name = { s.shown name with opens := s₁.opensUri && !s.reader.ended } := by
  cases t with
  | serving via =>
      show Client.shown _ _ = _
      simp [Client.shown, Client.goOn, Client.setServing, Client.opensUri, hgone, hshut, hreader]
  | reader rest =>
      have hpassing : s.reader = .passing c st rest := hat
      simp [Client.shown, Client.goOn, Client.setReader, Client.opensUri, hgone, hshut, hpassing,
        Reader.ended, Reader.looks, Reader.seen]

theorem shown_release (hat : s.At t c st) (hgone : s₁.gone = s.gone) (hshut : s₁.shut = s.shut)
    (hreader : s₁.reader = s.reader) :
    (s₁.release t).shown name = { s.shown name with opens := s₁.opensUri && !s.reader.ended } := by
  cases t with
  | serving via =>
      simp [Client.shown, Client.release, Client.setServing, Client.opensUri, hgone, hshut, hreader]
  | reader rest =>
      have hpassing : s.reader = .passing c st rest := hat
      simp [Client.shown, Client.release, Client.setReader, Client.opensUri, hgone, hshut, hpassing,
        Reader.ended, Reader.looks, Reader.seen]

/-- The thread of a call is done with it, and nothing of OpenURI was taken off the books. -/
theorem moves_of_release (hat : s.At t c st) (hgone : s₁.gone = s.gone) (hshut : s₁.shut = s.shut)
    (hreader : s₁.reader = s.reader) (hopens : s.opensUri → s₁.opensUri) :
    HostConn.Moves closes (s.shown name) ((s₁.release t).shown name) := by
  rw [shown_release hat hgone hshut hreader]
  refine .opens fun h => ?_
  obtain ⟨hsome, hended⟩ := Bool.and_eq_true_iff.mp h
  exact Bool.and_eq_true_iff.mpr ⟨hopens hsome, hended⟩

/-- The pending calls and the requests of a call that is written. -/
theorem opensUri_sent {pending : List (Nat × Pending)} {n : Nat} {p : Pending}
    (hpending : s'.pending = (n, p) :: pending) (hold : s.pending = pending)
    (hrequests : s'.openRequests = s.openRequests) (h : s.opensUri) : s'.opensUri := by
  unfold Client.opensUri at h ⊢
  rw [hpending, hrequests, ← hold, List.any_cons, Bool.or_assoc, h, Bool.or_true]

theorem moves_unlist {identified : Bool} {file : Option FileRequest} {out : Message}
    (hat : s.At t c (.unlist identified file out)) :
    HostConn.Moves (s.Unlists ((unlist s c out).goOn t c (.send identified file out))) (s.shown name)
      (((unlist s c out).goOn t c (.send identified file out)).shown name) := by
  obtain ⟨requests, hunlist⟩ := unlist_eq s c out
  have hshown : ((unlist s c out).goOn t c (.send identified file out)).shown name =
      { s.shown name with opens := (unlist s c out).opensUri && !s.reader.ended } := by
    refine shown_goOn hat ?_ ?_ ?_
    all_goals rw [hunlist]
  by_cases hclose : c.via = .portal ∧ out.isMember "org.freedesktop.portal.Request" "Close"
  · rw [hshown]
    refine .single (Or.inl ⟨.closes _, fun _ => ?_, rfl⟩)
    exact ⟨t, c, identified, file, out, hat, hclose.1, hclose.2, rfl⟩
  · have hsame : unlist s c out = s := by
      unfold unlist
      cases out.path with
      | none => rfl
      | some path => exact if_neg hclose
    refine .same ?_
    rw [hshown, hsame]
    rfl

/-- The reading thread looks at a message that is no reply. -/
theorem shown_dispatch {m : Message} {fds : List Fd} {ch : Choice} (hreader : s.reader = .received m fds)
    (h : dispatch s m fds ch = some s') : s'.shown name = s.shown name := by
  have hseen : s.reader.seen = .reading := by rw [hreader]; rfl
  have hlooks : s.reader.looks = false := by rw [hreader]; rfl
  -- What is read changes nothing that the client sees.
  have hnow : ∀ owners serial (r : Reader), r.seen = .reading → r.looks = false →
      Client.shown { s with owners := owners, serial := serial, reader := r } name = s.shown name := by
    intro owners serial r hr hl
    exact shown_congr rfl rfl rfl (hr.trans hseen.symm) (hl.trans hlooks.symm)
  unfold dispatch at h
  split at h
  · split at h
    all_goals
      cases h
      exact hnow s.owners s.serial _ rfl rfl
  split at h
  · split at h
    · split at h
      · split at h
        · simp only at h
          split at h
          all_goals
            cases h
            exact hnow _ s.serial _ rfl rfl
        · cases h
          exact hnow s.owners s.serial _ rfl rfl
      · cases h
        exact hnow s.owners s.serial _ rfl rfl
    · cases h
      exact hnow s.owners s.serial _ rfl rfl
  · split at h
    · split at h
      · cases h
        exact hnow s.owners _ _ rfl rfl
      · cases h
    · cases h
      exact hnow s.owners s.serial _ rfl rfl

/-- The reading thread has taken what it read off the books. -/
theorem moves_answered (hseen : s.reader.seen = .reading) (hlooks : s.reader.looks = false)
    (hgone : s'.gone = s.gone) (hshut : s'.shut = s.shut) (hseen' : s'.reader.seen = .reading)
    (hlooks' : s'.reader.looks) : HostConn.Moves closes (s.shown name) (s'.shown name) := by
  refine .move (m := .answered (s'.opensUri && !s'.reader.ended)) (fun _ hm => by cases hm) ?_
  show (if s.reader.seen = .reading ∧ s.reader.looks = false then _ else _) = _
  rw [if_pos ⟨hseen, hlooks⟩]
  have hended : s'.reader.ended = s.reader.ended := by
    rw [Reader.ended_eq, Reader.ended_eq, hseen, hseen']
  simp only [Client.shown, hgone, hshut, hended, hseen, hseen', hlooks']

/-- The reading thread is done with what it read, of a client that is still there. -/
theorem moves_present (hgone : s.gone = false) (hlooks : s.reader.looks) (hshut : s'.shut = s.shut)
    (hgone' : s'.gone = s.gone) (hopens : s'.opensUri = s.opensUri)
    (hseen : s'.reader.seen = s.reader.seen) (hlooks' : s'.reader.looks = false) :
    HostConn.Moves closes (s.shown name) (s'.shown name) := by
  refine .move (m := .check) (fun _ hm => by cases hm) ?_
  show (if s.reader.looks then _ else _) = _
  rw [if_pos hlooks]
  have hsame : (s.shown name).closeIfDone = s.shown name := by
    simp [HostConn.closeIfDone, Client.shown, hgone]
  have hended : s'.reader.ended = s.reader.ended := by
    rw [Reader.ended_eq, Reader.ended_eq, hseen]
  rw [hsame]
  simp only [Client.shown, hgone', hshut, hopens, hended, hseen, hlooks']

/-- The reading thread calls `close_if_done`. -/
theorem moves_closeIfDone (hreader : s.reader = .closeIfDone) :
    HostConn.Moves closes (s.shown name) ((s.closeIfDone.setReader .recv).shown name) := by
  refine .move (m := .check) (fun _ hm => by cases hm) ?_
  obtain ⟨shut, hnow, _⟩ := closeIfDone_eq s
  have hlooks : (s.shown name).looks := by
    show s.reader.looks
    rw [hreader]
    rfl
  unfold HostConn.move
  rw [if_pos hlooks, ← shown_closeIfDone, hnow]
  simp [Client.shown, Client.setReader, Client.opensUri, hreader, Reader.ended, Reader.seen, Reader.looks]

/-- A step of the reading thread that is at no call and at no reply. -/
theorem moves_quiet {cfg : Setup} {ch : Choice} (hquiet : s.reader.quiet)
    (h : relayerStep cfg s ch = some s') : HostConn.Moves closes (s.shown name) (s'.shown name) := by
  unfold relayerStep at h
  -- By what the thread is about to do.
  cases hreader : s.reader with
  | received m fds =>
      rw [hreader] at h
      exact .same (shown_dispatch hreader h)
  | signal m fds =>
      rw [hreader] at h
      cases h
      have hseen : s.reader.seen = .reading := by rw [hreader]; rfl
      have hlooks : s.reader.looks = false := by rw [hreader]; rfl
      unfold signalStep
      split
      · exact .same (shown_congr rfl rfl rfl hseen.symm hlooks.symm)
      · split
        · split
          all_goals exact moves_answered hseen hlooks rfl rfl rfl rfl
        · exact moves_answered hseen hlooks rfl rfl rfl rfl
  | deliver m fds =>
      rw [hreader] at h
      cases h
      have hseen : s.reader.seen = .reading := by rw [hreader]; rfl
      have hlooks : s.reader.looks = true := by rw [hreader]; rfl
      obtain ⟨files, htake⟩ : ∃ files, takeFileRequest s m = { s with fileRequests := files } := by
        unfold takeFileRequest
        split
        · exact ⟨_, rfl⟩
        · exact ⟨s.fileRequests, rfl⟩
      unfold deliverStep
      rw [htake]
      split
      · exact .same (shown_congr rfl rfl rfl hseen.symm hlooks.symm)
      · rename_i hgone
        have hhere : s.gone = false := by simpa using hgone
        split
        all_goals exact moves_present hhere hlooks rfl rfl rfl hseen.symm rfl
  | endRequests after =>
      rw [hreader] at h
      cases h
      cases after with
      | closeIfDone =>
          have hseen : s.reader.seen = .reading := by rw [hreader]; rfl
          have hlooks : s.reader.looks = false := by rw [hreader]; rfl
          exact moves_answered hseen hlooks rfl rfl rfl rfl
      | finish =>
          refine .same ?_
          simp [Client.shown, Client.setReader, hreader, Reader.ended, Reader.seen, Reader.looks]
  | telling paths after =>
      rw [hreader] at h
      cases h
      have hafter : (afterRequests after).seen = s.reader.seen ∧
          (afterRequests after).looks = s.reader.looks := by
        rw [hreader]
        cases after <;> exact ⟨rfl, rfl⟩
      unfold tellStep
      split
      all_goals exact .same (shown_congr rfl rfl rfl hafter.1 hafter.2)
  | closeIfDone =>
      rw [hreader] at h
      cases h
      exact moves_closeIfDone hreader
  | recv | done =>
      rw [hreader] at h
      cases h
  | _ =>
      rw [hreader] at hquiet
      cases hquiet

/-- What a step of one client does to its connection is among the moves of it here, and it is a
`Close` only where one is taken off the list. -/
theorem step_hostMoves {cfg : Setup} {a : Action} (name : String) (hstep : step cfg s a = some s') :
    HostConn.Moves (s.Unlists s') (s.shown name) (s'.shown name) := by
  -- By what the step does; most of it is not seen from outside.
  cases step_effect hstep with
  | found hat | notToPortal hat _ | noIdentity hat _ _ _ | sameOwner hat _ _ _ _
  | identified hat | allowed _ _ hat => exact .same (shown_goOn hat rfl rfl rfl)
  | unlisted hat => exact moves_unlist hat
  | elsewhere hat | unanswerable _ hat | heldBehind hat _ _ | registerFailed _ hat
  | registerHeld _ hat _ _ _ _ _ | answeredByPolicy _ hat _ | sendFailed _ hat
  | sentNoReply hat _ => exact .same (shown_release hat rfl rfl rfl)
  | sent p hat _ _ _ _ _ =>
      exact moves_of_release hat rfl rfl rfl (opensUri_sent rfl rfl rfl)
  | readAnswered _ _ _ _ _ _ | readCall _ _ _ _ | depart | leaveUnmapped | leave _ =>
      exact .same (shown_congr rfl rfl rfl rfl rfl)
  | goneSet _ => exact .single (Or.inr (Or.inl rfl))
  | left _ =>
      refine .single (Or.inr (Or.inr ?_))
      rw [← shown_closeIfDone]
      rfl
  | close hrecv =>
      have hclosed : HostConn.Moves (s.Unlists (s.setReader .closing)) (s.shown name)
          { s.shown name with up := false } := .move (m := .close) (fun _ hm => by cases hm) rfl
      refine hclosed.trans (HostConn.Moves.move (m := .serve) (fun _ hm => by cases hm) ?_)
      simp [HostConn.move, Client.shown, Client.setReader, hrecv, Reader.seen, Reader.looks, Reader.ended]
  | unmaps hreader =>
      refine .move (m := .serve) (fun _ hm => by cases hm) ?_
      simp [HostConn.move, Client.shown, Client.setReader, hreader, Reader.seen, Reader.looks, Reader.ended]
  | shutsDown hreader =>
      refine .move (m := .serve) (fun _ hm => by cases hm) ?_
      simp [HostConn.move, Client.shown, Client.setReader, hreader, Reader.seen, Reader.looks, Reader.ended]
  | quiet hquiet => exact moves_quiet hquiet.before hstep
  | registerAgain _ hat _ =>
      have hpassing : s.reader = _ := hat
      refine .same (shown_congr rfl rfl rfl ?_ ?_)
      all_goals
        rw [hpassing]
        rfl
  | received hrecv _ | receivedUndecodable _ hrecv _ _ | receivedUnknown hrecv _ _ =>
      refine .same (shown_congr rfl rfl rfl ?_ ?_)
      all_goals
        rw [hrecv]
        rfl
  | takesPending _ _ _ _ hreader _ _ =>
      refine moves_answered ?_ ?_ rfl rfl rfl rfl
      all_goals
        rw [hreader]
        rfl
  | replyRelayed hreader =>
      have hlooks : s.reader.looks := by
        rw [hreader]
        rfl
      refine moves_present ?_ hlooks rfl rfl rfl ?_ rfl
      · -- A client that has left gets no reply.
        cases hgone : s.gone with
        | false => rfl
        | true => simp [step, relayerStep, hreader, relayStep, hgone, Client.setReader] at hstep
      · rw [hreader]
        rfl
  | drainsPending hreader =>
      refine .same ?_
      simp [Client.shown, Client.setReader, hreader, Reader.seen, Reader.looks, Reader.ended]
  | registerReply hreader _ _ _ _ | otherReply hreader _ _ | registerAccepted hreader _
  | registerRefused hreader _ | drained hreader _ | takesHeld hreader | passedOn hreader
  | passesNext _ _ hreader | handedBack _ _ hreader | unknownReply hreader _
  | replyToGone hreader _ | failsToGone hreader _ | fails hreader =>
      refine .same (shown_congr rfl rfl rfl ?_ ?_)
      all_goals
        rw [hreader]
        rfl

end Shown

/-! ## Section 3: The Threads -/

/-- Where a thread is in `client()`. -/
inductive Getting where
  | look
  /-- For `creating`. -/
  | wait
  | lookAgain
  | connect
  /-- The host connection is there, and makes its calls. -/
  | setUp (i : Nat)
  /-- It is in the map, and the caller is looked for on the bus. -/
  | ask (i : Nat)
  | unlist (i : Nat)
  | start (i : Nat)
  /-- `client()` has returned it. -/
  | use (i : Nat)
  deriving DecidableEq

namespace Getting

/-- The connection that the thread holds. -/
def holds : Getting → Option Nat
  | setUp i | ask i | unlist i | start i | use i => some i
  | _ => none

/-- The connection that the thread sets up. -/
def making : Getting → Option Nat
  | setUp i | ask i | unlist i | start i => some i
  | _ => none

/-- The connection that the thread has put in the map. -/
def checking : Getting → Option Nat
  | ask i | unlist i | start i => some i
  | _ => none

/-- The thread holds `creating`. -/
def locked : Getting → Bool
  | look | wait | use _ => false
  | _ => true

end Getting

/-- A thread that serves a call from a client. -/
structure Task where
  name : String
  at_ : Getting

/-- Where the thread that handles departures is. -/
inductive Leaving where
  | idle
  /-- The client was taken out of the map. -/
  | taken (i : Nat)
  /-- Before `close_if_done`. -/
  | marked (i : Nat)

def Leaving.holds : Leaving → Option Nat
  | idle => none
  | taken i | marked i => some i

/-- The client that a `NameOwnerChanged` says has left. -/
def departed (m : Message) : Option String :=
  match m.args with
  | .ok args =>
      match toldBy args with
      | some (name, none) => if startsWith name ":" then some name else none
      | _ => none
  | .error _ => none

/-! ## Section 4: The System -/

structure Registry where
  /-- The names on the private bus. -/
  present : String → Bool := fun _ => false
  /-- The names that were on it. No name comes back. -/
  left : String → Bool := fun _ => false
  /-- The departures that the bus has told, and that were not read yet. -/
  notices : List String := []
  clients : String → Option Nat := fun _ => none
  /-- The host connections that were made are those below. -/
  made : Nat := 0
  host : Nat → HostConn := fun _ => { name := "" }
  /-- The thread that holds the lock. -/
  creating : Option Nat := none
  tasks : Nat → Option Task := fun _ => none
  leaving : Leaving := .idle

namespace Registry

inductive Move where
  /-- A client connects to the private bus. -/
  | join (name : String)
  | depart (name : String)
  /-- A `NameOwnerChanged` is read, from any sender: `name_changed` does not look at it. -/
  | notice (m : Message)
  /-- The next step of `name_changed`. -/
  | leave
  /-- A thread reads a call. -/
  | call (t : Nat) (name : String)
  /-- The next step of a thread, which may fail; of a thread that asks the bus, its answer. -/
  | go (t : Nat) (ok : Bool)
  | host (i : Nat) (m : HostMove)

def setClient (w : Registry) (name : String) (i : Option Nat) : Registry :=
  { w with clients := Function.update w.clients name i }

def setHost (w : Registry) (i : Nat) (h : HostConn) : Registry :=
  { w with host := Function.update w.host i h }

def goTo (w : Registry) (t : Nat) (name : String) (g : Getting) : Registry :=
  { w with tasks := Function.update w.tasks t (some { name := name, at_ := g }) }

def finish (w : Registry) (t : Nat) : Registry :=
  { w with tasks := Function.update w.tasks t none }

def release (w : Registry) : Registry :=
  { w with creating := none }

/-- A new host connection. -/
def connect (w : Registry) (name : String) : Registry :=
  { w.setHost w.made { name := name } with made := w.made + 1 }

/-- A step of `client()`, or the end of the call that it was for. -/
def advance (w : Registry) (t : Nat) (name : String) (ok : Bool) : Getting → Option Registry
  | .look =>
      match w.clients name with
      | some i => some (w.goTo t name (.use i))
      | none => some (w.goTo t name .wait)
  | .wait =>
      if w.creating.isSome then none
      else some ({ w with creating := some t }.goTo t name .lookAgain)
  | .lookAgain =>
      match w.clients name with
      | some i => some (w.release.goTo t name (.use i))
      | none => some (w.goTo t name .connect)
  | .connect =>
      if ok then some ((w.connect name).goTo t name (.setUp w.made)) else some (w.release.finish t)
  | .setUp i =>
      if ok then some ((w.setClient name (some i)).goTo t name (.ask i))
      else some (w.release.finish t)
  | .ask i => some (w.goTo t name (if ok then .start i else .unlist i))
  | .unlist _ => some ((w.setClient name none).release.finish t)
  | .start i =>
      -- A thread that cannot be started leaves the client in the map.
      if ok then some ((w.setHost i { w.host i with serve := .reading }).release.goTo t name (.use i))
      else some (w.release.finish t)
  | .use _ => some (w.finish t)

/-- What is said of a client that is in the map. -/
def notice (w : Registry) (name : String) : Registry :=
  let w := { w with notices := w.notices.filter (· ≠ name) }
  match w.clients name with
  | some i => { w.setClient name none with leaving := .taken i }
  | none => w

def step (w : Registry) : Move → Option Registry
  | .join name =>
      if startsWith name ":" ∧ !w.present name ∧ !w.left name then
        some { w with present := Function.update w.present name true }
      else none
  | .depart name =>
      if w.present name then
        some { w with present := Function.update w.present name false,
                      left := Function.update w.left name true, notices := w.notices ++ [name] }
      else none
  | .notice m =>
      match w.leaving, departed m with
      | .idle, some name => some (w.notice name)
      | .idle, none => some w
      | _, _ => none
  | .leave =>
      match w.leaving with
      | .idle => none
      | .taken i => some { w.setHost i (w.host i).mark with leaving := .marked i }
      | .marked i => some { w.setHost i (w.host i).closeIfDone with leaving := .idle }
  | .call t name =>
      if (w.tasks t).isNone ∧ (w.present name ∨ w.left name) then some (w.goTo t name .look) else none
  | .go t ok =>
      match w.tasks t with
      | some k => w.advance t k.name ok k.at_
      | none => none
  | .host i m =>
      if i < w.made then
        ((w.host i).move m).map fun h =>
          let w' := w.setHost i h
          match m, (w.host i).serve with
          -- By its name, whatever connection is there.
          | .serve, .ended => w'.setClient h.name none
          | _, _ => w'
      else none

end Registry

/-! ## Section 5: One Connection Each -/

namespace Registry

/-- A thread is at a place with a call from a client. -/
def At (w : Registry) (t : Nat) (name : String) (g : Getting) : Prop :=
  w.tasks t = some { name := name, at_ := g }

/-- Something refers to the connection, which is closed otherwise. -/
def Held (w : Registry) (i : Nat) : Prop :=
  (∃ name, w.clients name = some i) ∨ (∃ t name g, w.At t name g ∧ g.holds = some i) ∨
    w.leaving.holds = some i ∨ ((w.host i).serve ≠ .unstarted ∧ (w.host i).serve ≠ .done)

def Open (w : Registry) (i : Nat) : Prop :=
  i < w.made ∧ (w.host i).up ∧ w.Held i

/-- Messages are read from the connection, or a call is passed on over it. -/
def InUse (w : Registry) (i : Nat) : Prop :=
  i < w.made ∧ (w.host i).up ∧ ((w.host i).serve = .reading ∨ ∃ t name, w.At t name (.use i))

/-- The departure of a client was handled, and no call of it is. -/
def Finished (w : Registry) (name : String) : Prop :=
  w.left name ∧ name ∉ w.notices ∧ (∀ i, w.leaving.holds = some i → (w.host i).name ≠ name) ∧
    ∀ t g, ¬w.At t name g

structure OneEach (w : Registry) : Prop where
  one : ∀ i j, w.InUse i → w.InUse j → (w.host i).name = (w.host j).name → i = j
  present : ∀ i j, w.Open i → w.Open j → (w.host i).name = (w.host j).name →
    w.present (w.host i).name → i = j
  /-- `serve_host` reads, or is about to take out of the map what has ended, or is started next. -/
  served : ∀ name i, w.clients name = some i → (w.host i).serve = .reading ∨
    (w.host i).serve = .ended ∨ ∃ t g, w.At t name g ∧ g.checking = some i
  /-- Of a client that has left there is nothing but a connection that OpenURI keeps open. -/
  finished : ∀ name, w.Finished name → w.clients name = none ∧
    ∀ i, w.Open i → (w.host i).name = name → (w.host i).KeptOpen

/-- `on_bus` finds the caller if and only if it is there, the thread that reads is started, and a
call gets a client that is still set up only while its caller is there. -/
def TaskClean (w : Registry) (name : String) (ok : Bool) : Getting → Prop
  | .look => ∀ i ∈ w.clients name, (w.host i).serve = .unstarted → w.present name
  | .ask _ => ok = w.present name
  | .start _ => ok
  | _ => True

/-- A client is said to have left when it has. Once its departure was handled, no `Close` of it
takes the last thing that OpenURI waits for off the list, unless `serve_host` looks next. -/
def Clean (w : Registry) : Move → Prop
  | .go t ok => ∀ k ∈ w.tasks t, w.TaskClean k.name ok k.at_
  | .notice m => ∀ name ∈ departed m, (w.clients name).isSome → name ∈ w.notices
  | .host i (.closes false) => (w.host i).gone → (w.host i).opens →
      w.leaving.holds = some i ∨ (w.host i).looks
  | _ => True

instance (w : Registry) (name : String) (ok : Bool) : DecidablePred (w.TaskClean name ok)
  | .look => inferInstanceAs
      (Decidable (∀ i ∈ w.clients name, (w.host i).serve = .unstarted → w.present name))
  | .ask _ => inferInstanceAs (Decidable (ok = w.present name))
  | .start _ => inferInstanceAs (Decidable (ok = true))
  | .wait | .lookAgain | .connect | .setUp _ | .unlist _ | .use _ => .isTrue trivial

instance (w : Registry) : DecidablePred w.Clean
  | .go t ok => inferInstanceAs (Decidable (∀ k ∈ w.tasks t, w.TaskClean k.name ok k.at_))
  | .notice m => inferInstanceAs
      (Decidable (∀ name ∈ departed m, (w.clients name).isSome → name ∈ w.notices))
  | .host i (.closes false) => inferInstanceAs (Decidable ((w.host i).gone → (w.host i).opens →
      w.leaving.holds = some i ∨ (w.host i).looks))
  | .host _ (.closes true) | .host _ .opens | .host _ (.answered _) | .host _ .check
  | .host _ .close | .host _ .serve => .isTrue trivial
  | .join _ | .depart _ | .leave | .call .. => .isTrue trivial

/-! ## Section 6: The Invariant -/

/-- Something may still be done with the connection. -/
def Live (w : Registry) (i : Nat) : Prop :=
  (w.host i).serve = .reading ∨ (w.host i).serve = .ended ∨
    ((w.host i).up ∧ ∃ t name, w.At t name (.use i))

/-- A thread has put the connection in the map, and is not done with it. -/
def Checked (w : Registry) (i : Nat) : Prop :=
  ∃ t name g, w.At t name g ∧ g.checking = some i

/-- What a thread relies on at its place. -/
structure TaskRight (w : Registry) (t : Nat) (name : String) (g : Getting) : Prop where
  known : w.present name ∨ w.left name
  held : ∀ i, g.holds = some i → i < w.made ∧ (w.host i).name = name
  lock : g.locked → w.creating = some t
  newest : ∀ i, g.making = some i → i + 1 = w.made ∧ (w.host i).serve = .unstarted
  absent : g = .connect ∨ (∃ i, g = .setUp i) → w.clients name = none
  own : ∀ i j, g.checking = some i → w.clients name = some j → j = i
  refused : ∀ i, g = .unlist i → w.left name

/-- A connection that is in use without being in the map belongs to a client that has left
(`unlisted`), and no later one for that client is (`doomed`). -/
structure Sound (w : Registry) : Prop where
  tasks : ∀ t name g, w.At t name g → w.TaskRight t name g
  listed : ∀ name i, w.clients name = some i → i < w.made ∧ (w.host i).name = name
  latest : ∀ name i j, w.clients name = some i → i < j → j < w.made → (w.host j).name ≠ name
  served : ∀ name i, w.clients name = some i → (w.host i).serve = .reading ∨
    (w.host i).serve = .ended ∨ w.Checked i
  down : ∀ i, (w.host i).serve ≠ .unstarted → (w.host i).serve ≠ .reading → (w.host i).up = false
  apart : ∀ name, w.left name → w.present name = false
  told : ∀ name ∈ w.notices, w.left name
  marked : ∀ i, w.leaving = .marked i → (w.host i).gone
  leaver : ∀ i, w.leaving.holds = some i → i < w.made ∧ w.left (w.host i).name
  unlisted : ∀ i, i < w.made → w.clients (w.host i).name ≠ some i → w.Live i ∨ w.Checked i →
    w.left (w.host i).name
  doomed : ∀ i j, i < j → j < w.made → (w.host i).name = (w.host j).name → w.Live i →
    w.left (w.host i).name ∧ (w.host j).serve = .unstarted ∧
      ∀ t name, ¬w.At t name (.start j) ∧ ¬w.At t name (.use j)
  noticed : ∀ name i, w.left name → w.clients name = some i →
    name ∈ w.notices ∨ ∃ t, w.At t name (.ask i) ∨ w.At t name (.unlist i)
  closing : ∀ i, i < w.made → (w.host i).serve = .reading ∨ (∃ t name, w.At t name (.start i)) →
    (w.host i).up → w.clients (w.host i).name ≠ some i →
      w.leaving.holds = some i ∨ (w.host i).KeptOpen

section Places

variable {w : Registry} {t t' : Nat} {name name' : String} {g g' : Getting}

theorem at_goTo : (w.goTo t name g).At t' name' g' ↔
    (t' = t ∧ name' = name ∧ g' = g) ∨ (t' ≠ t ∧ w.At t' name' g') := by
  unfold At goTo
  simp only [Function.update_apply]
  by_cases h : t' = t
  · simp [h, eq_comm]
  · simp [h]

theorem at_finish : (w.finish t).At t' name' g' ↔ t' ≠ t ∧ w.At t' name' g' := by
  unfold At finish
  simp only [Function.update_apply]
  by_cases h : t' = t <;> simp [h]

theorem at_unique (h : w.At t name g) (h' : w.At t name' g') : name' = name ∧ g' = g := by
  unfold At at h h'
  rw [h] at h'
  cases h'
  exact ⟨rfl, rfl⟩

/-- One thread at a time has the lock. -/
theorem Sound.locked_unique (h : w.Sound) (hat : w.At t name g) (hlock : g.locked)
    (hat' : w.At t' name' g') (hlock' : g'.locked) : t' = t := by
  have hthis := (h.tasks t name g hat).lock hlock
  have hother := (h.tasks t' name' g' hat').lock hlock'
  exact Option.some.inj (hother.symm.trans hthis)

theorem Getting.locked_of_making {i : Nat} (h : g.making = some i) : g.locked := by
  cases g <;> first | rfl | cases h

theorem Getting.locked_of_checking {i : Nat} (h : g.checking = some i) : g.locked := by
  cases g <;> first | rfl | cases h

theorem Getting.holds_of_checking {i : Nat} (h : g.checking = some i) : g.holds = some i := by
  cases g <;> first | exact h | cases h

end Places

/-! ## Section 7: The Steps of the Threads -/

section Threads

variable {w w' : Registry} {t : Nat} {name : String} {i : Nat}

/-- The thread goes where it neither has put a connection in the map nor uses one. -/
theorem Sound.plain (h : w.Sound) (c : Option Nat) (ts : Nat → Option Task)
    (hfrom : ∀ name g, w.At t name g → g.checking = none)
    (hto : ∀ name g, At { w with creating := c, tasks := ts } t name g →
      g.checking = none ∧ (∀ i, g ≠ .use i) ∧
        TaskRight { w with creating := c, tasks := ts } t name g)
    (hothers : ∀ t' name g, t' ≠ t →
      (At { w with creating := c, tasks := ts } t' name g ↔ w.At t' name g))
    (hcreating : ∀ t', t' ≠ t → w.creating = some t' → c = some t') :
    Sound { w with creating := c, tasks := ts } := by
  -- The step is not into the use of a connection.
  have huse : ∀ t' name i, At { w with creating := c, tasks := ts } t' name (.use i) →
      w.At t' name (.use i) := by
    intro t' name i hat
    by_cases heq : t' = t
    · subst heq
      exact absurd rfl ((hto name _ hat).2.1 i)
    · exact (hothers t' name _ heq).mp hat
  -- What a thread is checking, it was checking before.
  have hchecking : ∀ t' name g i, g.checking = some i →
      (At { w with creating := c, tasks := ts } t' name g ↔ w.At t' name g) := by
    intro t' name g i hg
    by_cases heq : t' = t
    · subst heq
      constructor
      · intro hat
        cases hg.symm.trans (hto name g hat).1
      · intro hat
        cases hg.symm.trans (hfrom name g hat)
    · exact hothers t' name g heq
  have hlive : ∀ i, Live { w with creating := c, tasks := ts } i → w.Live i := by
    rintro i (hread | hended | ⟨hup, t', name, hat⟩)
    · exact Or.inl hread
    · exact Or.inr (Or.inl hended)
    · exact Or.inr (Or.inr ⟨hup, t', name, huse t' name i hat⟩)
  have hchecked : ∀ i, Checked { w with creating := c, tasks := ts } i ↔ w.Checked i := by
    intro i
    constructor
    · rintro ⟨t', name, g, hat, hg⟩
      exact ⟨t', name, g, (hchecking t' name g i hg).mp hat, hg⟩
    · rintro ⟨t', name, g, hat, hg⟩
      exact ⟨t', name, g, (hchecking t' name g i hg).mpr hat, hg⟩
  refine { h with
    tasks := ?tasks, served := ?served, unlisted := ?unlisted, doomed := ?doomed,
    noticed := ?noticed, closing := ?closing }
  case tasks =>
    intro t' name g hat
    by_cases heq : t' = t
    · subst heq
      exact (hto name g hat).2.2
    · have hright := h.tasks t' name g ((hothers t' name g heq).mp hat)
      exact { hright with lock := fun hg => hcreating t' heq (hright.lock hg) }
  case served =>
    intro name i hi
    exact (h.served name i hi).imp_right (Or.imp_right (hchecked i).mpr)
  case unlisted =>
    intro i hi hnot hactive
    -- The same connections live, and the same are checked.
    exact h.unlisted i hi hnot (hactive.imp (hlive i) (hchecked i).mp)
  case doomed =>
    intro i j hij hj hname hi
    obtain ⟨hleft, hserve, hnot⟩ := h.doomed i j hij hj hname (hlive i hi)
    refine ⟨hleft, hserve, fun t' name => ⟨?_, fun hat => (hnot t' name).2 (huse t' name j hat)⟩⟩
    exact fun hat => (hnot t' name).1 ((hchecking t' name _ j rfl).mp hat)
  case noticed =>
    intro name i hleft hi
    refine (h.noticed name i hleft hi).imp_right ?_
    rintro ⟨t', hat⟩
    exact ⟨t', hat.imp (hchecking t' name _ i rfl).mpr (hchecking t' name _ i rfl).mpr⟩
  case closing =>
    rintro i hi (hread | ⟨t', name, hat⟩)
    · exact h.closing i hi (Or.inl hread)
    · exact h.closing i hi (Or.inr ⟨t', name, (hchecking t' name _ i rfl).mp hat⟩)

/-- What a thread at a place without a connection relies on. -/
theorem taskRight_of_known {g : Getting} (hknown : w.present name ∨ w.left name)
    (hlock : g.locked → w.creating = some t) (habsent : g = .connect → w.clients name = none)
    (hnone : g.holds = none) : w.TaskRight t name g := by
  have hmaking : g.making = none := by
    cases g <;> first | rfl | cases hnone
  have hchecking : g.checking = none := by
    cases g <;> first | rfl | cases hnone
  refine {
    known := hknown, held := ?held, lock := hlock, newest := ?newest, absent := ?absent,
    own := ?own, refused := ?refused }
  case held =>
    intro i hi
    cases hnone.symm.trans hi
  case newest =>
    intro i hi
    cases hmaking.symm.trans hi
  case absent =>
    rintro (hconnect | ⟨i, hsetUp⟩)
    · exact habsent hconnect
    · subst hsetUp
      cases hnone
  case own =>
    intro i j hi
    cases hchecking.symm.trans hi
  case refused =>
    intro i hi
    subst hi
    cases hnone

theorem sound_goTo (h : w.Sound) {c : Option Nat} {g : Getting}
    (hknown : w.present name ∨ w.left name) (hfrom : ∀ name g, w.At t name g → g.checking = none)
    (hnone : g.holds = none) (hlock : g.locked → c = some t)
    (habsent : g = .connect → w.clients name = none)
    (hcreating : ∀ t', t' ≠ t → w.creating = some t' → c = some t') :
    Sound ({ w with creating := c }.goTo t name g) := by
  refine @Sound.plain w t h c _ hfrom ?_ ?_ hcreating
  · intro name' g' hat'
    replace hat' : At ({ w with creating := c }.goTo t name g) t name' g' := hat'
    rw [at_goTo] at hat'
    rcases hat' with ⟨_, rfl, rfl⟩ | ⟨hne, _⟩
    · refine ⟨?_, ?_, taskRight_of_known hknown hlock habsent hnone⟩
      · cases g' <;> first | rfl | cases hnone
      · rintro i rfl
        cases hnone
    · exact absurd rfl hne
  · intro t' name' g' hne
    show At ({ w with creating := c }.goTo t name g) t' name' g' ↔ _
    rw [at_goTo]
    simp [hne, At]

/-- The thread is done, and the lock is released if it held it. -/
theorem sound_finish (h : w.Sound) {c : Option Nat} {g : Getting} (hat : w.At t name g)
    (hfrom : g.checking = none) (hcreating : ∀ t', t' ≠ t → w.creating = some t' → c = some t') :
    Sound ({ w with creating := c }.finish t) := by
  refine @Sound.plain w t h c _ ?_ ?_ ?_ hcreating
  · intro name' g' hat'
    rw [(at_unique hat hat').2]
    exact hfrom
  · intro name' g' hat'
    replace hat' : At ({ w with creating := c }.finish t) t name' g' := hat'
    rw [at_finish] at hat'
    exact absurd rfl hat'.1
  · intro t' name' g' hne
    show At ({ w with creating := c }.finish t) t' name' g' ↔ _
    rw [at_finish]
    simp [hne, At]

/-- The lock is not another thread's. -/
theorem Sound.creating_other (h : w.Sound) {g : Getting} (hat : w.At t name g) (hlock : g.locked)
    {c : Option Nat} {t' : Nat} (hne : t' ≠ t) (hcreating : w.creating = some t') :
    c = some t' := by
  have hthis := (h.tasks t name g hat).lock hlock
  exact absurd (Option.some.inj (hcreating.symm.trans hthis)) hne

/-- The call gets the client that is in the map. -/
theorem sound_take (h : w.Sound) {c : Option Nat} {g : Getting} (hat : w.At t name g)
    (hfrom : g.checking = none) (hi : w.clients name = some i)
    (hpresent : (w.host i).serve = .unstarted → w.present name)
    (hcreating : ∀ t', t' ≠ t → w.creating = some t' → c = some t') :
    Sound ({ w with creating := c }.goTo t name (.use i)) := by
  obtain ⟨hmade, hname⟩ := h.listed name i hi
  have hat_iff : ∀ t' name' g', At ({ w with creating := c }.goTo t name (.use i)) t' name' g' ↔
      (t' = t ∧ name' = name ∧ g' = .use i) ∨ (t' ≠ t ∧ w.At t' name' g') := fun _ _ _ => at_goTo
  have hchecking : ∀ t' name' g' j, g'.checking = some j →
      (At ({ w with creating := c }.goTo t name (.use i)) t' name' g' ↔ w.At t' name' g') := by
    -- The thread comes to use the connection, so it checks none.
    intro t' name' g' j hg
    rw [hat_iff]
    constructor
    · rintro (⟨_, _, rfl⟩ | ⟨_, hold⟩)
      · cases hg
      · exact hold
    · intro hold
      refine Or.inr ⟨?_, hold⟩
      rintro rfl
      rw [← (at_unique hat hold).2] at hfrom
      cases hg.symm.trans hfrom
  have hchecked : ∀ j, Checked ({ w with creating := c }.goTo t name (.use i)) j ↔ w.Checked j := by
    intro j
    constructor
    · rintro ⟨t', name', g', hat', hg⟩
      exact ⟨t', name', g', (hchecking t' name' g' j hg).mp hat', hg⟩
    · rintro ⟨t', name', g', hat', hg⟩
      exact ⟨t', name', g', (hchecking t' name' g' j hg).mpr hat', hg⟩
  -- Only the connection taken comes to be used.
  have hlive : ∀ j, Live ({ w with creating := c }.goTo t name (.use i)) j → w.Live j ∨ j = i := by
    rintro j (hread | hended | ⟨hup, t', name', hat'⟩)
    · exact Or.inl (Or.inl hread)
    · exact Or.inl (Or.inr (Or.inl hended))
    -- It is this thread and the connection it takes, or a use from before.
    · rcases (hat_iff _ _ _).mp hat' with ⟨_, _, hj⟩ | ⟨_, hold⟩
      · exact Or.inr (Getting.use.inj hj)
      · exact Or.inl (Or.inr (Or.inr ⟨hup, t', name', hold⟩))
  refine { h with
    tasks := ?tasks, served := ?served, unlisted := ?unlisted, doomed := ?doomed,
    noticed := ?noticed, closing := ?closing }
  case tasks =>
    intro t' name' g' hat'
    -- The thread itself, or another one, for which nothing changes.
    rcases (hat_iff _ _ _).mp hat' with ⟨rfl, rfl, rfl⟩ | ⟨hne, hold⟩
    · refine ⟨(h.tasks t' name' g hat).known, ?_, ?_, ?_, ?_, ?_, ?_⟩
      · intro j hj
        cases hj
        exact ⟨hmade, hname⟩
      · exact fun hlock => by cases hlock
      · exact fun j hj => by cases hj
      · exact fun hplace => by simp at hplace
      · exact fun j k hj => by cases hj
      · exact fun j hj => by cases hj
    · have hright := h.tasks t' name' g' hold
      exact { hright with lock := fun hg => hcreating t' hne (hright.lock hg) }
  case served =>
    intro name' j hj
    exact (h.served name' j hj).imp_right (Or.imp_right (hchecked j).mpr)
  case unlisted =>
    intro j hj hnot hactive
    rcases hactive with hlived | hcheck
    · rcases hlive j hlived with hold | rfl
      · exact h.unlisted j hj hnot (Or.inl hold)
      · have hthere : w.clients (w.host j).name = some j := by rw [hname]; exact hi
        exact absurd hthere hnot
    · exact h.unlisted j hj hnot (Or.inr ((hchecked j).mp hcheck))
  case doomed =>
    intro j k hjk hk hsame hlived
    rcases hlive j hlived with hold | rfl
    · obtain ⟨hleft, hserve, hnot⟩ := h.doomed j k hjk hk hsame hold
      refine ⟨hleft, hserve, fun t' name' => ⟨?_, ?_⟩⟩
      · exact fun hat' => (hnot t' name').1 ((hchecking t' name' _ k rfl).mp hat')
      · intro hat'
        rcases (hat_iff _ _ _).mp hat' with ⟨_, _, hk⟩ | ⟨_, hused⟩
        · -- The client has left, so its connection is not given to a call.
          cases hk
          have hclient : (w.host j).name = name := hsame.trans hname
          rw [hclient] at hleft
          cases (h.apart name hleft).symm.trans (hpresent hserve)
        · exact (hnot t' name').2 hused
    -- There is no later connection of the name than the listed one.
    · exact absurd (hsame.symm.trans hname) (h.latest name j k hi hjk hk)
  case noticed =>
    intro name' j hleft hj
    refine (h.noticed name' j hleft hj).imp_right ?_
    rintro ⟨t', hat'⟩
    exact ⟨t', hat'.imp (hchecking t' name' _ j rfl).mpr (hchecking t' name' _ j rfl).mpr⟩
  case closing =>
    rintro j hj (hread | ⟨t', name', hat'⟩)
    · exact h.closing j hj (Or.inl hread)
    · exact h.closing j hj (Or.inr ⟨t', name', (hchecking t' name' _ j rfl).mp hat'⟩)

/-- The other threads are where they do not need the lock. -/
theorem Sound.unlocked_of_ne (h : w.Sound) {t' : Nat} {name' : String} {g g' : Getting}
    (hat : w.At t name g) (hlock : g.locked) (hat' : w.At t' name' g') (hne : t' ≠ t) :
    g'.locked = false := by
  cases hg : g'.locked with
  | false => rfl
  | true => exact absurd (h.locked_unique hat hlock hat' hg) hne

/-- What a thread has is a connection that was made. -/
theorem Sound.made_of_holds (h : w.Sound) {g : Getting} (hat : w.At t name g) (hg : g.holds = some i) :
    i < w.made :=
  ((h.tasks t name g hat).held i hg).1

/-- The registry once a host connection is made. -/
abbrev afterConnect (w : Registry) (t : Nat) (name : String) : Registry :=
  (w.connect name).goTo t name (.setUp w.made)

private theorem at_afterConnect {t' : Nat} {name' : String} {g' : Getting} :
    (w.afterConnect t name).At t' name' g' ↔
      (t' = t ∧ name' = name ∧ g' = .setUp w.made) ∨ (t' ≠ t ∧ w.At t' name' g') :=
  at_goTo

private theorem host_afterConnect_new : (w.afterConnect t name).host w.made = { name := name } :=
  Function.update_self ..

private theorem host_afterConnect_of_ne (hne : i ≠ w.made) :
    (w.afterConnect t name).host i = w.host i :=
  Function.update_of_ne hne ..

private theorem lt_or_eq_of_afterConnect (hi : i < (w.afterConnect t name).made) :
    i < w.made ∨ i = w.made := by
  have : i < w.made + 1 := hi
  omega

/-- A thread at another place was there before. -/
private theorem at_of_afterConnect {t' : Nat} {name' : String} {g' : Getting} (hne : g' ≠ .setUp w.made)
    (hat' : (w.afterConnect t name).At t' name' g') : w.At t' name' g' := by
  rcases at_afterConnect.mp hat' with ⟨_, _, hg⟩ | ⟨_, hbefore⟩
  · exact absurd hg hne
  · exact hbefore

private theorem checked_afterConnect (hat : w.At t name .connect) :
    (w.afterConnect t name).Checked i ↔ w.Checked i := by
  constructor
  · rintro ⟨t', name', g', hat', hg⟩
    rcases at_afterConnect.mp hat' with ⟨_, _, rfl⟩ | ⟨_, hbefore⟩
    · cases hg
    · exact ⟨t', name', g', hbefore, hg⟩
  · rintro ⟨t', name', g', hat', hg⟩
    refine ⟨t', name', g', at_afterConnect.mpr (Or.inr ⟨?_, hat'⟩), hg⟩
    rintro rfl
    rw [(at_unique hat hat').2] at hg
    cases hg

/-- Nothing is done yet with the connection that is made. -/
private theorem live_afterConnect (h : w.Sound) (hl : (w.afterConnect t name).Live i)
    (hi : i < (w.afterConnect t name).made) : i < w.made ∧ w.Live i := by
  rcases lt_or_eq_of_afterConnect hi with hlt | rfl
  · refine ⟨hlt, ?_⟩
    unfold Live at hl
    rw [host_afterConnect_of_ne (Nat.ne_of_lt hlt)] at hl
    refine hl.imp_right (Or.imp_right ?_)
    rintro ⟨hup, t', name', hat'⟩
    exact ⟨hup, t', name', at_of_afterConnect (by simp) hat'⟩
  · exfalso
    unfold Live at hl
    rw [host_afterConnect_new] at hl
    rcases hl with hread | hended | ⟨_, t', name', hat'⟩
    · cases hread
    · cases hended
    · exact Nat.lt_irrefl _ (h.made_of_holds (at_of_afterConnect (by simp) hat') rfl)

private theorem taskRight_afterConnect (h : w.Sound) (hat : w.At t name .connect) {t' : Nat}
    {name' : String} {g' : Getting} (hat' : (w.afterConnect t name).At t' name' g') :
    (w.afterConnect t name).TaskRight t' name' g' := by
  have hright := h.tasks t name _ hat
  rcases at_afterConnect.mp hat' with ⟨rfl, rfl, rfl⟩ | ⟨hne, hbefore⟩
  · refine {
      known := hright.known, held := ?held, lock := fun _ => hright.lock rfl, newest := ?newest,
      absent := fun _ => hright.absent (Or.inl rfl), own := ?own, refused := ?refused }
    case held =>
      intro i hi
      cases hi
      exact ⟨Nat.lt_succ_self _, by rw [host_afterConnect_new]⟩
    case newest =>
      intro i hi
      cases hi
      exact ⟨rfl, by rw [host_afterConnect_new]⟩
    case own =>
      exact fun i j hi => by cases hi
    case refused =>
      exact fun i hi => by cases hi
  · have hother := h.tasks t' name' g' hbefore
    have hfree := h.unlocked_of_ne hat rfl hbefore hne
    refine ⟨hother.known, ?_, hother.lock, ?_, hother.absent, hother.own, hother.refused⟩
    · intro i hi
      obtain ⟨hlt, hname⟩ := hother.held i hi
      exact ⟨Nat.lt_succ_of_lt hlt, by rw [host_afterConnect_of_ne (Nat.ne_of_lt hlt)]; exact hname⟩
    · intro i hi
      cases hfree.symm.trans (Getting.locked_of_making hi)

/-- A connection is made for a client only while none is in the map for it: an older one in use was
taken out, since the client has left. -/
private theorem doomed_afterConnect (h : w.Sound) (hat : w.At t name .connect) {i j : Nat} (hij : i < j)
    (hj : j < (w.afterConnect t name).made)
    (hsame : ((w.afterConnect t name).host i).name = ((w.afterConnect t name).host j).name)
    (hl : (w.afterConnect t name).Live i) :
    w.left ((w.afterConnect t name).host i).name ∧
      ((w.afterConnect t name).host j).serve = .unstarted ∧
      ∀ t' name', ¬(w.afterConnect t name).At t' name' (.start j) ∧
        ¬(w.afterConnect t name).At t' name' (.use j) := by
  obtain ⟨hi, hbefore⟩ := live_afterConnect h hl (Nat.lt_trans hij hj)
  rw [host_afterConnect_of_ne (Nat.ne_of_lt hi)] at hsame ⊢
  rcases lt_or_eq_of_afterConnect hj with hlt | rfl
  · rw [host_afterConnect_of_ne (Nat.ne_of_lt hlt)] at hsame ⊢
    obtain ⟨hleft, hserve, hnot⟩ := h.doomed i j hij hlt hsame hbefore
    refine ⟨hleft, hserve, fun t' name' => ⟨?_, ?_⟩⟩
    · exact fun hat' => (hnot t' name').1 (at_of_afterConnect (by simp) hat')
    · exact fun hat' => (hnot t' name').2 (at_of_afterConnect (by simp) hat')
  · rw [host_afterConnect_new] at hsame ⊢
    have hnot : w.clients (w.host i).name ≠ some i := by
      rw [hsame, (h.tasks t name _ hat).absent (Or.inl rfl)]
      simp
    refine ⟨h.unlisted i hi hnot (Or.inl hbefore), rfl, fun t' name' => ⟨?_, ?_⟩⟩
    · intro hat'
      exact Nat.lt_irrefl _ (h.made_of_holds (at_of_afterConnect (by simp) hat') rfl)
    · intro hat'
      exact Nat.lt_irrefl _ (h.made_of_holds (at_of_afterConnect (by simp) hat') rfl)

/-- A host connection is made, for a client that is not in the map. -/
theorem sound_connect (h : w.Sound) (hat : w.At t name .connect) :
    (w.afterConnect t name).Sound := by
  constructor
  case tasks => exact fun _ _ _ hat' => taskRight_afterConnect h hat hat'
  case listed =>
    -- The new connection has a number of its own, behind all others.
    intro name' i hi
    obtain ⟨hlt, hname⟩ := h.listed name' i hi
    exact ⟨Nat.lt_succ_of_lt hlt, by rw [host_afterConnect_of_ne (Nat.ne_of_lt hlt)]; exact hname⟩
  case latest =>
    intro name' i j hi hij hj
    rcases lt_or_eq_of_afterConnect hj with hlt | rfl
    · rw [host_afterConnect_of_ne (Nat.ne_of_lt hlt)]
      exact h.latest name' i j hi hij hlt
    · rw [host_afterConnect_new]
      rintro rfl
      cases ((h.tasks t name _ hat).absent (Or.inl rfl)).symm.trans hi
  case served =>
    intro name' i hi
    rw [host_afterConnect_of_ne (Nat.ne_of_lt (h.listed name' i hi).1), checked_afterConnect hat]
    exact h.served name' i hi
  case down =>
    intro i hstarted
    -- The new connection has not started.
    by_cases heq : i = w.made
    · subst heq
      rw [host_afterConnect_new] at hstarted
      exact absurd rfl hstarted
    · rw [host_afterConnect_of_ne heq] at hstarted ⊢
      exact h.down i hstarted
  case apart => exact h.apart
  case told => exact h.told
  case marked =>
    intro i hi
    have hlt : i < w.made := (h.leaver i (by rw [show w.leaving = .marked i from hi]; rfl)).1
    rw [host_afterConnect_of_ne (Nat.ne_of_lt hlt)]
    exact h.marked i hi
  case leaver =>
    intro i hi
    obtain ⟨hlt, hleft⟩ := h.leaver i hi
    rw [host_afterConnect_of_ne (Nat.ne_of_lt hlt)]
    exact ⟨Nat.lt_succ_of_lt hlt, hleft⟩
  case unlisted =>
    -- An old connection, or the new one, which nobody uses yet.
    intro i hi hnot hactive
    rcases lt_or_eq_of_afterConnect hi with hlt | rfl
    · rw [host_afterConnect_of_ne (Nat.ne_of_lt hlt)] at hnot ⊢
      exact h.unlisted i hlt hnot
        (hactive.imp (fun hl => (live_afterConnect h hl hi).2) (checked_afterConnect hat).mp)
    · rcases hactive with hl | hc
      · exact absurd (live_afterConnect h hl hi).1 (Nat.lt_irrefl _)
      · obtain ⟨t', name', g', hbefore, hg⟩ := (checked_afterConnect hat).mp hc
        exact absurd (h.made_of_holds hbefore (Getting.holds_of_checking hg)) (Nat.lt_irrefl _)
  case doomed => exact fun _ _ hij hj hsame hl => doomed_afterConnect h hat hij hj hsame hl
  case noticed =>
    intro name' i hleft hi
    refine (h.noticed name' i hleft hi).imp_right ?_
    rintro ⟨t', hat'⟩
    -- The thread that connects is not the one that has noticed.
    have hne : t' ≠ t := by
      rintro rfl
      rcases hat' with hask | hunlist
      · cases (at_unique hat hask).2
      · cases (at_unique hat hunlist).2
    refine ⟨t', hat'.imp ?_ ?_⟩
    · exact fun hask => at_afterConnect.mpr (Or.inr ⟨hne, hask⟩)
    · exact fun hunlist => at_afterConnect.mpr (Or.inr ⟨hne, hunlist⟩)
  case closing =>
    intro i hi hserving
    rcases lt_or_eq_of_afterConnect hi with hlt | rfl
    · rw [host_afterConnect_of_ne (Nat.ne_of_lt hlt)] at hserving ⊢
      refine h.closing i hlt (hserving.imp_right ?_)
      rintro ⟨t', name', hat'⟩
      exact ⟨t', name', at_of_afterConnect (by simp) hat'⟩
    · rw [host_afterConnect_new] at hserving
      rcases hserving with hread | ⟨t', name', hat'⟩
      · cases hread
      · exact absurd (h.made_of_holds (at_of_afterConnect (by simp) hat') rfl) (Nat.lt_irrefl _)

/-- The connection that is set up is put in the map. -/
theorem sound_insert (h : w.Sound) (hat : w.At t name (.setUp i)) :
    Sound ((w.setClient name (some i)).goTo t name (.ask i)) := by
  have hright := h.tasks t name _ hat
  have hlock := hright.lock rfl
  obtain ⟨hlt, hname⟩ := hright.held i rfl
  obtain ⟨hlast, hserve⟩ := hright.newest i rfl
  have habsent : w.clients name = none := hright.absent (Or.inr ⟨i, rfl⟩)
  have hat_iff : ∀ t' name' g', At ((w.setClient name (some i)).goTo t name (.ask i)) t' name' g' ↔
      (t' = t ∧ name' = name ∧ g' = .ask i) ∨ (t' ≠ t ∧ w.At t' name' g') :=
    fun _ _ _ => at_goTo
  have hthis : ((w.setClient name (some i)).goTo t name (.ask i)).clients name = some i :=
    Function.update_self ..
  -- No other name is listed anew.
  have hother : ∀ name', name' ≠ name →
      ((w.setClient name (some i)).goTo t name (.ask i)).clients name' = w.clients name' :=
    fun name' hne => Function.update_of_ne hne ..
  have hlisted : ∀ name' j, ((w.setClient name (some i)).goTo t name (.ask i)).clients name' = some j →
      (name' = name ∧ j = i) ∨ (name' ≠ name ∧ w.clients name' = some j) := by
    intro name' j hj
    by_cases heq : name' = name
    · subst heq
      exact Or.inl ⟨rfl, (Option.some.inj (hthis.symm.trans hj)).symm⟩
    · rw [hother name' heq] at hj
      exact Or.inr ⟨heq, hj⟩
  -- This thread asks now, so it does nothing else.
  have hbefore : ∀ t' name' g', g' ≠ .ask i →
      At ((w.setClient name (some i)).goTo t name (.ask i)) t' name' g' → w.At t' name' g' := by
    intro t' name' g' hne hat'
    rcases (hat_iff _ _ _).mp hat' with ⟨_, _, hg⟩ | ⟨_, hold⟩
    · exact absurd hg hne
    · exact hold
  have hlive : ∀ j, Live ((w.setClient name (some i)).goTo t name (.ask i)) j → w.Live j := by
    rintro j (hread | hended | ⟨hup, t', name', hat'⟩)
    · exact Or.inl hread
    · exact Or.inr (Or.inl hended)
    · exact Or.inr (Or.inr ⟨hup, t', name', hbefore t' name' _ (by simp) hat'⟩)
  have hchecked : ∀ j, Checked ((w.setClient name (some i)).goTo t name (.ask i)) j →
      j = i ∨ w.Checked j := by
    rintro j ⟨t', name', g', hat', hg⟩
    rcases (hat_iff _ _ _).mp hat' with ⟨_, _, rfl⟩ | ⟨_, hold⟩
    · cases hg
      exact Or.inl rfl
    · exact Or.inr ⟨t', name', g', hold, hg⟩
  -- No other thread has put a connection in the map.
  have hfree : ∀ t' name' g', t' ≠ t → w.At t' name' g' → g'.locked = false := by
    intro t' name' g' hne hat'
    cases hg : g'.locked with
    | false => rfl
    | true => exact absurd (h.locked_unique hat rfl hat' hg) hne
  refine { h with
    tasks := ?tasks, listed := ?listed, latest := ?latest, served := ?served,
    unlisted := ?unlisted, doomed := ?doomed, noticed := ?noticed, closing := ?closing }
  case tasks =>
    intro t' name' g' hat'
    rcases (hat_iff _ _ _).mp hat' with ⟨rfl, rfl, rfl⟩ | ⟨hne, hold⟩
    · refine ⟨hright.known, hright.held, fun _ => hlock, hright.newest, ?_, ?_, ?_⟩
      · exact fun hplace => by simp at hplace
      · intro j k hj hk
        cases hj
        exact (Option.some.inj (hthis.symm.trans hk)).symm
      · exact fun j hj => by cases hj
    · have hunlocked := hfree t' name' g' hne hold
      refine { h.tasks t' name' g' hold with absent := ?absent, own := ?own }
      case absent =>
        rintro (rfl | ⟨j, rfl⟩) <;> cases hunlocked
      case own =>
        intro j k hj
        cases hunlocked.symm.trans (Getting.locked_of_checking hj)
  case listed =>
    intro name' j hj
    -- The name of this thread, or another.
    rcases hlisted name' j hj with ⟨rfl, rfl⟩ | ⟨_, hold⟩
    · exact ⟨hlt, hname⟩
    · exact h.listed name' j hold
  case latest =>
    intro name' j k hj hjk hk
    rcases hlisted name' j hj with ⟨rfl, rfl⟩ | ⟨_, hold⟩
    · replace hk : k < w.made := hk
      omega
    · exact h.latest name' j k hold hjk hk
  case served =>
    intro name' j hj
    rcases hlisted name' j hj with ⟨rfl, rfl⟩ | ⟨_, hold⟩
    -- This thread is still checking it.
    · exact Or.inr (Or.inr ⟨t, name', .ask j, (hat_iff _ _ _).mpr (Or.inl ⟨rfl, rfl, rfl⟩), rfl⟩)
    · refine (h.served name' j hold).imp_right (Or.imp_right ?_)
      rintro ⟨t', name'', g', hat', hg⟩
      refine ⟨t', name'', g', (hat_iff _ _ _).mpr (Or.inr ⟨?_, hat'⟩), hg⟩
      rintro rfl
      rw [(at_unique hat hat').2] at hg
      cases hg
  case unlisted =>
    intro j hj hnot hactive
    replace hnot : ((w.setClient name (some i)).goTo t name (.ask i)).clients (w.host j).name ≠ some j :=
      hnot
    -- A connection that is listed now is not unlisted.
    have hne : j ≠ i := by
      rintro rfl
      rw [hname] at hnot
      exact hnot hthis
    refine h.unlisted j hj ?_ (hactive.imp (hlive j) fun hc => (hchecked j hc).resolve_left hne)
    intro hold
    by_cases heq : (w.host j).name = name
    · rw [heq] at hold
      cases habsent.symm.trans hold
    · rw [hother _ heq] at hnot
      exact hnot hold
  case doomed =>
    intro j k hjk hk hsame hl
    obtain ⟨hleft, hunstarted, hnot⟩ := h.doomed j k hjk hk hsame (hlive j hl)
    refine ⟨hleft, hunstarted, fun t' name' => ⟨?_, ?_⟩⟩
    · exact fun hat' => (hnot t' name').1 (hbefore t' name' _ (by simp) hat')
    · exact fun hat' => (hnot t' name').2 (hbefore t' name' _ (by simp) hat')
  case noticed =>
    intro name' j hleft hj
    rcases hlisted name' j hj with ⟨rfl, rfl⟩ | ⟨_, hold⟩
    -- This thread has still to ask whether the client is there.
    · exact Or.inr ⟨t, Or.inl ((hat_iff _ _ _).mpr (Or.inl ⟨rfl, rfl, rfl⟩))⟩
    · refine (h.noticed name' j hleft hold).imp_right ?_
      rintro ⟨t', hat'⟩
      have hne : t' ≠ t := by
        rintro rfl
        rcases hat' with hask | hunlist
        · cases (at_unique hat hask).2
        · cases (at_unique hat hunlist).2
      refine ⟨t', hat'.imp ?_ ?_⟩
      · exact fun hask => (hat_iff _ _ _).mpr (Or.inr ⟨hne, hask⟩)
      · exact fun hunlist => (hat_iff _ _ _).mpr (Or.inr ⟨hne, hunlist⟩)
  case closing =>
    intro j hj hserving hup hnot
    replace hnot : ((w.setClient name (some i)).goTo t name (.ask i)).clients (w.host j).name ≠ some j :=
      hnot
    refine h.closing j hj (hserving.imp_right ?_) hup ?_
    · rintro ⟨t', name', hat'⟩
      exact ⟨t', name', hbefore t' name' _ (by simp) hat'⟩
    · intro hold
      by_cases heq : (w.host j).name = name
      · rw [heq] at hold
        cases habsent.symm.trans hold
      · rw [hother _ heq] at hnot
        exact hnot hold

/-- The bus says whether the caller is there. -/
theorem sound_ask (h : w.Sound) (hat : w.At t name (.ask i)) :
    Sound (w.goTo t name (if w.present name then .start i else .unlist i)) := by
  have hright := h.tasks t name _ hat
  obtain ⟨hlt, hname⟩ := hright.held i rfl
  -- The thread goes to `g`, with the connection that it has in the map.
  obtain ⟨g, hg, hchecks, hcases⟩ : ∃ g : Getting, g = (if w.present name then .start i else .unlist i) ∧
      g.checking = some i ∧ ((g = .start i ∧ w.left name = false) ∨ (g = .unlist i ∧ w.left name)) := by
    refine ⟨_, rfl, ?_⟩
    cases hpresent : w.present name with
    | true =>
        refine ⟨rfl, Or.inl ⟨rfl, ?_⟩⟩
        cases hleft : w.left name with
        | false => rfl
        | true => cases hpresent.symm.trans (h.apart name hleft)
    -- The client has left, so the thread takes the connection out again.
    | false => exact ⟨rfl, Or.inr ⟨rfl, hright.known.resolve_left (by simp [hpresent])⟩⟩
  rw [← hg]
  have hat_iff : ∀ t' name' g', At (w.goTo t name g) t' name' g' ↔
      (t' = t ∧ name' = name ∧ g' = g) ∨ (t' ≠ t ∧ w.At t' name' g') := fun _ _ _ => at_goTo
  have huse : ∀ t' name' j, At (w.goTo t name g) t' name' (.use j) → w.At t' name' (.use j) := by
    intro t' name' j hat'
    rcases (hat_iff _ _ _).mp hat' with ⟨_, _, rfl⟩ | ⟨_, hold⟩
    · cases hchecks
    · exact hold
  -- It comes to start the connection only while the caller is on the bus.
  have hstart : ∀ t' name' j, At (w.goTo t name g) t' name' (.start j) →
      w.At t' name' (.start j) ∨ (j = i ∧ w.left name = false) := by
    intro t' name' j hat'
    rcases (hat_iff _ _ _).mp hat' with ⟨_, _, hstart⟩ | ⟨_, hold⟩
    · refine Or.inr ?_
      rcases hcases with ⟨rfl, hleft⟩ | ⟨rfl, _⟩
      · exact ⟨Getting.start.inj hstart, hleft⟩
      · cases hstart
    · exact Or.inl hold
  have hlive : ∀ j, Live (w.goTo t name g) j → w.Live j := by
    rintro j (hread | hended | ⟨hup, t', name', hat'⟩)
    · exact Or.inl hread
    · exact Or.inr (Or.inl hended)
    · exact Or.inr (Or.inr ⟨hup, t', name', huse t' name' j hat'⟩)
  have hchecked : ∀ j, Checked (w.goTo t name g) j ↔ w.Checked j := by
    intro j
    constructor
    · rintro ⟨t', name', g', hat', hg'⟩
      rcases (hat_iff _ _ _).mp hat' with ⟨_, _, rfl⟩ | ⟨_, hold⟩
      · exact ⟨t, name, _, hat, hchecks.symm.trans hg'⟩
      · exact ⟨t', name', g', hold, hg'⟩
    · rintro ⟨t', name', g', hat', hg'⟩
      by_cases heq : t' = t
      · subst heq
        obtain ⟨rfl, rfl⟩ := at_unique hat hat'
        exact ⟨t', name', g, (hat_iff _ _ _).mpr (Or.inl ⟨rfl, rfl, rfl⟩), hchecks.trans hg'⟩
      · exact ⟨t', name', g', (hat_iff _ _ _).mpr (Or.inr ⟨heq, hat'⟩), hg'⟩
  refine { h with
    tasks := ?tasks, served := ?served, unlisted := ?unlisted, doomed := ?doomed,
    noticed := ?noticed, closing := ?closing }
  case tasks =>
    intro t' name' g' hat'
    rcases (hat_iff _ _ _).mp hat' with ⟨rfl, rfl, rfl⟩ | ⟨_, hold⟩
    -- It goes on with the same connection.
    · refine ⟨hright.known, ?_, fun _ => hright.lock rfl, ?_, ?_, ?_, ?_⟩
      · intro j hj
        cases (Getting.holds_of_checking hchecks).symm.trans hj
        exact ⟨hlt, hname⟩
      · intro j hj
        rcases hcases with ⟨rfl, _⟩ | ⟨rfl, _⟩
        · exact hright.newest j hj
        · exact hright.newest j hj
      · rintro (rfl | ⟨j, rfl⟩) <;> cases hchecks
      · intro j k hj
        cases hchecks.symm.trans hj
        exact hright.own i k rfl
      · rintro j rfl
        rcases hcases with ⟨hstart, _⟩ | ⟨_, hleft⟩
        · cases hstart
        · exact hleft
    · exact { h.tasks t' name' g' hold with }
  case served =>
    intro name' j hj
    exact (h.served name' j hj).imp_right (Or.imp_right (hchecked j).mpr)
  case unlisted =>
    intro j hj hnot hactive
    exact h.unlisted j hj hnot (hactive.imp (hlive j) (hchecked j).mp)
  case doomed =>
    intro j k hjk hk hsame hl
    obtain ⟨hleft, hserve, hnot⟩ := h.doomed j k hjk hk hsame (hlive j hl)
    refine ⟨hleft, hserve, fun t' name' => ⟨?_, fun hat' => (hnot t' name').2 (huse t' name' k hat')⟩⟩
    intro hat'
    rcases hstart t' name' k hat' with hold | ⟨rfl, hthere⟩
    · exact (hnot t' name').1 hold
    · -- The caller is on the bus, so no connection of it lives on.
      have hclient : (w.host j).name = name := hsame.trans hname
      rw [hclient] at hleft
      cases hthere.symm.trans hleft
  case noticed =>
    intro name' j hleft hj
    refine (h.noticed name' j hleft hj).imp_right ?_
    rintro ⟨t', hat'⟩
    by_cases heq : t' = t
    -- The thread that has noticed is this one, which takes the connection out.
    · subst heq
      rcases hat' with hask | hunlist
      · obtain ⟨rfl, hask⟩ := at_unique hat hask
        cases hask
        rcases hcases with ⟨_, hthere⟩ | ⟨rfl, _⟩
        · cases hthere.symm.trans hleft
        · exact ⟨t', Or.inr ((hat_iff _ _ _).mpr (Or.inl ⟨rfl, rfl, rfl⟩))⟩
      · cases (at_unique hat hunlist).2
    · refine ⟨t', hat'.imp ?_ ?_⟩
      · exact fun hask => (hat_iff _ _ _).mpr (Or.inr ⟨heq, hask⟩)
      · exact fun hunlist => (hat_iff _ _ _).mpr (Or.inr ⟨heq, hunlist⟩)
  case closing =>
    rintro j hj (hread | ⟨t', name', hat'⟩) hup hnot
    · exact h.closing j hj (Or.inl hread) hup hnot
    · rcases hstart t' name' j hat' with hold | ⟨rfl, hthere⟩
      · exact h.closing j hj (Or.inr ⟨t', name', hold⟩) hup hnot
      · have hleft := h.unlisted j hj hnot (Or.inr ⟨t, name, _, hat, rfl⟩)
        rw [hname] at hleft
        cases hthere.symm.trans hleft

/-- The caller has left, and is taken out of the map again. -/
theorem sound_unlist (h : w.Sound) (hat : w.At t name (.unlist i)) :
    Sound ((w.setClient name none).release.finish t) := by
  have hright := h.tasks t name _ hat
  obtain ⟨_, hname⟩ := hright.held i rfl
  have hat_iff : ∀ t' name' g', At ((w.setClient name none).release.finish t) t' name' g' ↔
      t' ≠ t ∧ w.At t' name' g' := fun _ _ _ => at_finish
  have hthis : ((w.setClient name none).release.finish t).clients name = none :=
    Function.update_self ..
  -- Only this name's entry goes.
  have hother : ∀ name', name' ≠ name →
      ((w.setClient name none).release.finish t).clients name' = w.clients name' :=
    fun name' hne => Function.update_of_ne hne ..
  have hlisted : ∀ name' j, ((w.setClient name none).release.finish t).clients name' = some j →
      name' ≠ name ∧ w.clients name' = some j := by
    intro name' j hj
    by_cases heq : name' = name
    · subst heq
      cases hthis.symm.trans hj
    · rw [hother name' heq] at hj
      exact ⟨heq, hj⟩
  -- The lock is held by this thread.
  have hfree : ∀ t' name' g', t' ≠ t → w.At t' name' g' → g'.locked = false := by
    intro t' name' g' hne hat'
    cases hg : g'.locked with
    | false => rfl
    | true => exact absurd (h.locked_unique hat rfl hat' hg) hne
  have hlive : ∀ j, Live ((w.setClient name none).release.finish t) j → w.Live j := by
    rintro j (hread | hended | ⟨hup, t', name', hat'⟩)
    · exact Or.inl hread
    · exact Or.inr (Or.inl hended)
    · exact Or.inr (Or.inr ⟨hup, t', name', ((hat_iff _ _ _).mp hat').2⟩)
  have hchecked : ∀ j, ¬Checked ((w.setClient name none).release.finish t) j := by
    rintro j ⟨t', name', g', hat', hg⟩
    obtain ⟨hne, hold⟩ := (hat_iff _ _ _).mp hat'
    cases (hfree t' name' g' hne hold).symm.trans (Getting.locked_of_checking hg)
  -- What is taken out is the connection of this thread.
  have hown : ∀ j, ((w.setClient name none).release.finish t).clients (w.host j).name ≠ some j →
      w.clients (w.host j).name ≠ some j ∨ (j = i ∧ (w.host j).name = name) := by
    intro j hnot
    by_cases heq : (w.host j).name = name
    · by_cases hold : w.clients (w.host j).name = some j
      · rw [heq] at hold
        exact Or.inr ⟨hright.own i j rfl hold, heq⟩
      · exact Or.inl hold
    · rw [hother _ heq] at hnot
      exact Or.inl hnot
  refine { h with
    tasks := ?tasks, listed := ?listed, latest := ?latest, served := ?served,
    unlisted := ?unlisted, doomed := ?doomed, noticed := ?noticed, closing := ?closing }
  case tasks =>
    intro t' name' g' hat'
    obtain ⟨hne, hold⟩ := (hat_iff _ _ _).mp hat'
    have hunlocked := hfree t' name' g' hne hold
    refine { h.tasks t' name' g' hold with lock := ?lock, absent := ?absent, own := ?own }
    case lock =>
      exact fun hg => by cases hunlocked.symm.trans hg
    case absent =>
      rintro (rfl | ⟨j, rfl⟩) <;> cases hunlocked
    case own =>
      intro j k hj
      cases hunlocked.symm.trans (Getting.locked_of_checking hj)
  case listed =>
    exact fun name' j hj => h.listed name' j (hlisted name' j hj).2
  case latest =>
    exact fun name' j k hj => h.latest name' j k (hlisted name' j hj).2
  case served =>
    intro name' j hj
    obtain ⟨hne, hold⟩ := hlisted name' j hj
    rcases h.served name' j hold with hread | hended | ⟨t', name'', g', hat', hg⟩
    · exact Or.inl hread
    · exact Or.inr (Or.inl hended)
    · exfalso
      obtain rfl := h.locked_unique hat rfl hat' (Getting.locked_of_checking hg)
      rw [(at_unique hat hat').2] at hg
      cases hg
      exact hne ((h.listed name' i hold).2.symm.trans hname)
  case unlisted =>
    intro j hj hnot hactive
    rcases hown j hnot with hold | ⟨_, heq⟩
    · exact h.unlisted j hj hold (Or.inl (hlive j (hactive.resolve_right (hchecked j))))
    · show w.left (w.host j).name
      rw [heq]
      exact hright.refused i rfl
  case doomed =>
    intro j k hjk hk hsame hl
    obtain ⟨hleft, hserve, hnot⟩ := h.doomed j k hjk hk hsame (hlive j hl)
    refine ⟨hleft, hserve, fun t' name' => ⟨?_, ?_⟩⟩
    · exact fun hat' => (hnot t' name').1 ((hat_iff _ _ _).mp hat').2
    · exact fun hat' => (hnot t' name').2 ((hat_iff _ _ _).mp hat').2
  case noticed =>
    intro name' j hleft hj
    obtain ⟨hne, hold⟩ := hlisted name' j hj
    refine (h.noticed name' j hleft hold).imp_right ?_
    rintro ⟨t', hat'⟩
    have hapart : t' ≠ t := by
      rintro rfl
      rcases hat' with hask | hunlist
      · exact hne (at_unique hat hask).1
      · exact hne (at_unique hat hunlist).1
    refine ⟨t', hat'.imp ?_ ?_⟩
    · exact fun hask => (hat_iff _ _ _).mpr ⟨hapart, hask⟩
    · exact fun hunlist => (hat_iff _ _ _).mpr ⟨hapart, hunlist⟩
  case closing =>
    intro j hj hserving hup hnot
    have hreads : (w.host j).serve = .reading := by
      rcases hserving with hread | ⟨t', name', hat'⟩
      · exact hread
      · exact absurd ⟨t', name', _, hat', rfl⟩ (hchecked j)
    rcases hown j hnot with hold | ⟨rfl, _⟩
    · exact h.closing j hj (Or.inl hreads) hup hold
    · cases hreads.symm.trans (hright.newest j rfl).2

/-- The registry once the thread that reads is started. -/
abbrev afterStart (w : Registry) (t : Nat) (name : String) (i : Nat) : Registry :=
  (w.setHost i { w.host i with serve := .reading }).release.goTo t name (.use i)

private theorem at_afterStart {t' : Nat} {name' : String} {g' : Getting} :
    (w.afterStart t name i).At t' name' g' ↔
      (t' = t ∧ name' = name ∧ g' = .use i) ∨ (t' ≠ t ∧ w.At t' name' g') :=
  at_goTo

private theorem host_afterStart_self :
    (w.afterStart t name i).host i = { w.host i with serve := .reading } :=
  Function.update_self ..

private theorem host_afterStart_of_ne {j : Nat} (hne : j ≠ i) :
    (w.afterStart t name i).host j = w.host j :=
  Function.update_of_ne hne ..

private theorem name_afterStart (j : Nat) :
    ((w.afterStart t name i).host j).name = (w.host j).name := by
  by_cases heq : j = i
  · subst heq
    rw [host_afterStart_self]
  · rw [host_afterStart_of_ne heq]

private theorem up_afterStart (j : Nat) : ((w.afterStart t name i).host j).up = (w.host j).up := by
  by_cases heq : j = i
  · subst heq
    rw [host_afterStart_self]
  · rw [host_afterStart_of_ne heq]

/-- The thread had the lock, so no other is between the map and the start. -/
private theorem not_checked_afterStart (h : w.Sound) (hat : w.At t name (.start i)) (j : Nat) :
    ¬(w.afterStart t name i).Checked j := by
  rintro ⟨t', name', g', hat', hg⟩
  rcases at_afterStart.mp hat' with ⟨_, _, rfl⟩ | ⟨hne, hold⟩
  · cases hg
  · cases (h.unlocked_of_ne hat rfl hold hne).symm.trans (Getting.locked_of_checking hg)

private theorem live_afterStart {j : Nat} (hl : (w.afterStart t name i).Live j) :
    w.Live j ∨ j = i := by
  by_cases heq : j = i
  · exact Or.inr heq
  · unfold Live at hl
    rw [host_afterStart_of_ne heq] at hl
    refine Or.inl (hl.imp_right (Or.imp_right ?_))
    rintro ⟨hup, t', name', hat'⟩
    rcases at_afterStart.mp hat' with ⟨_, _, hj⟩ | ⟨_, hold⟩
    · exact absurd (Getting.use.inj hj) heq
    · exact ⟨hup, t', name', hold⟩

private theorem taskRight_afterStart (h : w.Sound) (hat : w.At t name (.start i)) {t' : Nat}
    {name' : String} {g' : Getting} (hat' : (w.afterStart t name i).At t' name' g') :
    (w.afterStart t name i).TaskRight t' name' g' := by
  have hright := h.tasks t name _ hat
  rcases at_afterStart.mp hat' with ⟨rfl, rfl, rfl⟩ | ⟨hne, hold⟩
  · refine {
      known := hright.known, held := ?held, lock := ?lock, newest := ?newest, absent := ?absent,
      own := ?own, refused := ?refused }
    case held =>
      intro j hj
      rw [name_afterStart]
      exact hright.held j hj
    case lock =>
      exact fun hlock => by cases hlock
    case newest =>
      exact fun j hj => by cases hj
    case absent =>
      exact fun hplace => by simp at hplace
    case own =>
      exact fun j k hj => by cases hj
    case refused =>
      exact fun j hj => by cases hj
  · have hunlocked := h.unlocked_of_ne hat rfl hold hne
    have hothers := h.tasks t' name' g' hold
    refine {
      known := hothers.known, held := ?held, lock := ?lock, newest := ?newest,
      absent := hothers.absent, own := hothers.own, refused := hothers.refused }
    case held =>
      intro j hj
      rw [name_afterStart]
      exact hothers.held j hj
    case lock =>
      exact fun hg => by cases hunlocked.symm.trans hg
    case newest =>
      exact fun j hj => by cases hunlocked.symm.trans (Getting.locked_of_making hj)

/-- The newest connection is none that an older one stands before. -/
private theorem doomed_afterStart (h : w.Sound) (hat : w.At t name (.start i)) {j k : Nat}
    (hjk : j < k) (hk : k < w.made) (hsame : (w.host j).name = (w.host k).name)
    (hl : (w.afterStart t name i).Live j) :
    w.left (w.host j).name ∧ ((w.afterStart t name i).host k).serve = .unstarted ∧
      ∀ t' name', ¬(w.afterStart t name i).At t' name' (.start k) ∧
        ¬(w.afterStart t name i).At t' name' (.use k) := by
  have hlast := ((h.tasks t name _ hat).newest i rfl).1
  rcases live_afterStart hl with hold | rfl
  · obtain ⟨hleft, hserve, hnot⟩ := h.doomed j k hjk hk hsame hold
    have hne : k ≠ i := by
      rintro rfl
      exact (hnot t name).1 hat
    rw [host_afterStart_of_ne hne]
    refine ⟨hleft, hserve, fun t' name' => ⟨?_, ?_⟩⟩
    · exact fun hat' => not_checked_afterStart h hat k ⟨t', name', _, hat', rfl⟩
    · intro hat'
      rcases at_afterStart.mp hat' with ⟨_, _, hk⟩ | ⟨_, hused⟩
      · exact hne (Getting.use.inj hk)
      · exact (hnot t' name').2 hused
  · omega

/-- The thread that reads is started. -/
theorem sound_start (h : w.Sound) (hat : w.At t name (.start i)) :
    (w.afterStart t name i).Sound := by
  constructor
  case tasks => exact fun _ _ _ hat' => taskRight_afterStart h hat hat'
  case listed =>
    intro name' j hj
    rw [name_afterStart]
    exact h.listed name' j hj
  case latest =>
    intro name' j k hj hjk hk
    rw [name_afterStart]
    exact h.latest name' j k hj hjk hk
  case served =>
    intro name' j hj
    by_cases heq : j = i
    · subst heq
      exact Or.inl (by rw [host_afterStart_self])
    · rw [host_afterStart_of_ne heq]
      refine (h.served name' j hj).imp_right (Or.imp_right ?_)
      rintro ⟨t', name'', g', hat', hg⟩
      obtain rfl := h.locked_unique hat rfl hat' (Getting.locked_of_checking hg)
      rw [(at_unique hat hat').2] at hg
      exact absurd (Option.some.inj hg).symm heq
  case down =>
    intro j hstarted hread
    rw [up_afterStart]
    by_cases heq : j = i
    · subst heq
      rw [host_afterStart_self] at hread
      exact absurd rfl hread
    · rw [host_afterStart_of_ne heq] at hstarted hread
      exact h.down j hstarted hread
  case apart => exact h.apart
  case told => exact h.told
  case marked =>
    intro j hj
    have hgone := h.marked j hj
    by_cases heq : j = i
    · subst heq
      rw [host_afterStart_self]
      exact hgone
    · rw [host_afterStart_of_ne heq]
      exact hgone
  case leaver =>
    intro j hj
    rw [name_afterStart]
    exact h.leaver j hj
  case unlisted =>
    intro j hj hnot hactive
    rw [name_afterStart] at hnot ⊢
    rcases hactive with hl | hc
    · rcases live_afterStart hl with hold | rfl
      · exact h.unlisted j hj hnot (Or.inl hold)
      · exact h.unlisted j hj hnot (Or.inr ⟨t, name, _, hat, rfl⟩)
    · exact absurd hc (not_checked_afterStart h hat j)
  case doomed =>
    intro j k hjk hk hsame hl
    rw [name_afterStart, name_afterStart] at hsame
    rw [name_afterStart]
    exact doomed_afterStart h hat hjk hk hsame hl
  case noticed =>
    intro name' j hleft hj
    refine (h.noticed name' j hleft hj).imp_right ?_
    rintro ⟨t', hat'⟩
    have hne : t' ≠ t := by
      rintro rfl
      rcases hat' with hask | hunlist
      · cases (at_unique hat hask).2
      · cases (at_unique hat hunlist).2
    refine ⟨t', hat'.imp ?_ ?_⟩
    · exact fun hask => at_afterStart.mpr (Or.inr ⟨hne, hask⟩)
    · exact fun hunlist => at_afterStart.mpr (Or.inr ⟨hne, hunlist⟩)
  case closing =>
    intro j hj hserving hup hnot
    rw [up_afterStart] at hup
    rw [name_afterStart] at hnot
    by_cases heq : j = i
    · subst heq
      rw [host_afterStart_self]
      exact h.closing j hj (Or.inr ⟨t, name, hat⟩) hup hnot
    · rw [host_afterStart_of_ne heq] at hserving ⊢
      refine h.closing j hj (Or.inl (hserving.resolve_right ?_)) hup hnot
      rintro ⟨t', name', hat'⟩
      exact not_checked_afterStart h hat j ⟨t', name', _, hat', rfl⟩

theorem sound_advance (h : w.Sound) {ok : Bool} {g : Getting} (hat : w.At t name g)
    (hclean : w.TaskClean name ok g) (hstep : w.advance t name ok g = some w') : w'.Sound := by
  have hright := h.tasks t name g hat
  have hplain : g.checking = none → ∀ name' g', w.At t name' g' → g'.checking = none := by
    intro hnone name' g' hat'
    rw [(at_unique hat hat').2]
    exact hnone
  cases g with
  | look =>
      simp only [advance] at hstep
      split at hstep
      · rename_i i hi
        cases hstep
        exact sound_take h hat rfl hi (hclean i hi) fun _ _ hc => hc
      · cases hstep
        exact sound_goTo h hright.known (hplain rfl) rfl (fun hg => by cases hg)
          (fun hg => by cases hg) fun _ _ hc => hc
  | wait =>
      simp only [advance] at hstep
      split at hstep
      · cases hstep
      · rename_i hfree
        cases hstep
        refine sound_goTo h hright.known (hplain rfl) rfl (fun _ => rfl) (fun hg => by cases hg) ?_
        intro t' _ hc
        simp [hc] at hfree
  | lookAgain =>
      simp only [advance] at hstep
      split at hstep
      · rename_i i hi
        cases hstep
        refine sound_take h hat rfl hi ?_ fun t' hne hc => h.creating_other hat rfl hne hc
        -- Only the thread that has the lock is still setting one up.
        intro hunstarted
        rcases h.served name i hi with hread | hended | ⟨t', name', g', hat', hg⟩
        · cases hread.symm.trans hunstarted
        · cases hended.symm.trans hunstarted
        · obtain rfl := h.locked_unique hat rfl hat' (Getting.locked_of_checking hg)
          rw [(at_unique hat hat').2] at hg
          cases hg
      · rename_i habsent
        cases hstep
        exact sound_goTo h hright.known (hplain rfl) rfl (fun _ => hright.lock rfl)
          (fun _ => habsent) fun _ _ hc => hc
  | connect =>
      simp only [advance] at hstep
      split at hstep
      · cases hstep
        exact sound_connect h hat
      · cases hstep
        exact sound_finish h hat rfl fun t' hne hc => h.creating_other hat rfl hne hc
  | setUp i =>
      simp only [advance] at hstep
      split at hstep
      · cases hstep
        exact sound_insert h hat
      · cases hstep
        exact sound_finish h hat rfl fun t' hne hc => h.creating_other hat rfl hne hc
  | ask i =>
      cases hstep
      rw [show ok = w.present name from hclean]
      exact sound_ask h hat
  | unlist i =>
      cases hstep
      exact sound_unlist h hat
  | start i =>
      simp only [advance] at hstep
      split at hstep
      · cases hstep
        exact sound_start h hat
      · rename_i hfailed
        exact absurd hclean hfailed
  | use i =>
      cases hstep
      exact sound_finish h hat rfl fun _ _ hc => hc

theorem sound_call (h : w.Sound) (hidle : w.tasks t = none) (hknown : w.present name ∨ w.left name) :
    (w.goTo t name .look).Sound := by
  refine sound_goTo h hknown ?_ rfl (fun hg => by cases hg) (fun hg => by cases hg) fun _ _ hc => hc
  intro name' g' hat'
  cases hidle.symm.trans hat'

end Threads

/-! ## Section 8: The Other Steps -/

section Others

variable {w w' : Registry} {i : Nat}

/-- A connection goes on, and the map is as it was. -/
theorem sound_setHost (h : w.Sound) {c : HostConn} (hname : c.name = (w.host i).name)
    (hup : c.up → (w.host i).up) (hgone : (w.host i).gone → c.gone)
    (hkept : c.up → (w.host i).KeptOpen → w.leaving.holds = some i ∨ c.KeptOpen)
    (hreading : c.serve = .reading → (w.host i).serve = .reading)
    (hended : c.serve = .ended → (w.host i).serve = .reading ∨ (w.host i).serve = .ended)
    (hserves : (w.host i).serve = .reading ∨ (w.host i).serve = .ended →
      c.serve = .reading ∨ c.serve = .ended)
    (hunstarted : (w.host i).serve = .unstarted → c.serve = .unstarted)
    (hdown : c.serve ≠ .unstarted → c.serve ≠ .reading → c.up = false) : (w.setHost i c).Sound := by
  have hthis : (w.setHost i c).host i = c := Function.update_self ..
  have hother : ∀ j, j ≠ i → (w.setHost i c).host j = w.host j := fun j hne =>
    Function.update_of_ne hne ..
  have hnames : ∀ j, ((w.setHost i c).host j).name = (w.host j).name := by
    intro j
    by_cases heq : j = i
    · subst heq
      rw [hthis, hname]
    · rw [hother j heq]
  have hunstarteds : ∀ j, (w.host j).serve = .unstarted → ((w.setHost i c).host j).serve = .unstarted := by
    intro j hj
    by_cases heq : j = i
    · subst heq
      rw [hthis]
      exact hunstarted hj
    · rw [hother j heq]
      exact hj
  have hlive : ∀ j, Live (w.setHost i c) j → w.Live j := by
    intro j hl
    by_cases heq : j = i
    · subst heq
      unfold Live at hl
      rw [hthis] at hl
      rcases hl with hr | he | ⟨hu, huse⟩
      · exact Or.inl (hreading hr)
      · rcases hended he with hr | he
        · exact Or.inl hr
        · exact Or.inr (Or.inl he)
      · exact Or.inr (Or.inr ⟨hup hu, huse⟩)
    · unfold Live at hl
      rw [hother j heq] at hl
      exact hl
  constructor
  case tasks =>
    intro t name g hat
    have hright := h.tasks t name g hat
    refine ⟨hright.known, ?_, hright.lock, ?_, hright.absent, hright.own, hright.refused⟩
    · intro j hj
      rw [hnames]
      exact hright.held j hj
    · intro j hj
      exact ⟨(hright.newest j hj).1, hunstarteds j (hright.newest j hj).2⟩
  case listed =>
    intro name j hj
    rw [hnames]
    exact h.listed name j hj
  case latest =>
    intro name j k hj hjk hk
    rw [hnames]
    exact h.latest name j k hj hjk hk
  case served =>
    intro name j hj
    by_cases heq : j = i
    · subst heq
      rw [hthis]
      rcases h.served name j hj with hr | he | hchecked
      · exact (hserves (Or.inl hr)).imp_right Or.inl
      · exact (hserves (Or.inr he)).imp_right Or.inl
      · exact Or.inr (Or.inr hchecked)
    · rw [hother j heq]
      exact h.served name j hj
  case down =>
    intro j hs hr
    by_cases heq : j = i
    · subst heq
      rw [hthis] at hs hr ⊢
      exact hdown hs hr
    · rw [hother j heq] at hs hr ⊢
      exact h.down j hs hr
  case apart => exact h.apart
  case told => exact h.told
  case marked =>
    intro j hj
    have hmarked := h.marked j hj
    by_cases heq : j = i
    · subst heq
      rw [hthis]
      exact hgone hmarked
    · rw [hother j heq]
      exact hmarked
  case leaver =>
    intro j hj
    rw [hnames]
    exact h.leaver j hj
  case unlisted =>
    intro j hj hnot hactive
    rw [hnames] at hnot ⊢
    exact h.unlisted j hj hnot (hactive.imp_left (hlive j))
  case doomed =>
    intro j k hjk hk hsame hl
    rw [hnames, hnames] at hsame
    rw [hnames]
    obtain ⟨hleft, hserve, hnot⟩ := h.doomed j k hjk hk hsame (hlive j hl)
    exact ⟨hleft, hunstarteds k hserve, hnot⟩
  case noticed => exact h.noticed
  case closing =>
    intro j hj hserving hj' hnot
    rw [hnames] at hnot
    by_cases heq : j = i
    · subst heq
      rw [hthis] at hserving hj' ⊢
      exact (h.closing j hj (hserving.imp_left hreading) (hup hj') hnot).elim Or.inl (hkept hj')
    · rw [hother j heq] at hserving hj' ⊢
      exact h.closing j hj hserving hj' hnot

/-- What waits for OpenURI changes, and nothing else. -/
theorem sound_waits (h : w.Sound) {c : HostConn} (hname : c.name = (w.host i).name)
    (hup : c.up = (w.host i).up) (hgone : c.gone = (w.host i).gone) (hserve : c.serve = (w.host i).serve)
    (hkept : (w.host i).KeptOpen → w.leaving.holds = some i ∨ c.KeptOpen) : (w.setHost i c).Sound := by
  refine sound_setHost h hname (fun hu => hup ▸ hu) (fun hg => hgone.trans hg) (fun _ => hkept)
    ?_ ?_ ?_ ?_ ?_
  all_goals rw [hserve]
  · exact id
  · exact Or.inr
  · exact id
  · exact id
  · rw [hup]
    exact h.down i

/-- `close_if_done` leaves a connection open only for what waits. -/
theorem closeIfDone_cases (c : HostConn) :
    (c.gone = true ∧ c.opens = false ∧ c.closeIfDone = { c with up := false }) ∨
      ((c.gone = true → c.opens = true) ∧ c.closeIfDone = c) := by
  unfold HostConn.closeIfDone
  cases c.gone <;> cases c.opens <;> simp

theorem sound_check (h : w.Sound) (looks : Bool) :
    (w.setHost i { (w.host i).closeIfDone with looks := looks }).Sound := by
  rcases closeIfDone_cases (w.host i) with ⟨_, _, hnow⟩ | ⟨hopens, hnow⟩
  · rw [hnow]
    exact sound_setHost h rfl (fun hu => by cases hu) id (fun hu => by cases hu) id Or.inr id id
      fun _ _ => rfl
  · rw [hnow]
    exact sound_waits h rfl rfl rfl rfl fun hkept => Or.inr ⟨hkept.1, Or.inl (hopens hkept.1)⟩

/-- The map without a name. -/
theorem setClient_none {v : Registry} {name name' : String} {j : Nat} :
    (v.setClient name none).clients name' = some j ↔ name' ≠ name ∧ v.clients name' = some j := by
  by_cases heq : name' = name
  · subst heq
    simp [setClient]
  · simp [setClient, heq]

/-- The registry once a connection that has ended is taken out of the map, by its client's name. -/
abbrev afterUnmap (w : Registry) (i : Nat) : Registry :=
  (w.setHost i { w.host i with serve := .unlisted }).setClient (w.host i).name none

private theorem host_afterUnmap_self :
    (w.afterUnmap i).host i = { w.host i with serve := .unlisted } :=
  Function.update_self ..

private theorem host_afterUnmap_of_ne {j : Nat} (hne : j ≠ i) : (w.afterUnmap i).host j = w.host j :=
  Function.update_of_ne hne ..

private theorem name_afterUnmap (j : Nat) : ((w.afterUnmap i).host j).name = (w.host j).name := by
  by_cases heq : j = i
  · subst heq
    rw [host_afterUnmap_self]
  · rw [host_afterUnmap_of_ne heq]

private theorem down_of_ended (h : w.Sound) (hended : (w.host i).serve = .ended) :
    (w.host i).up = false :=
  h.down i (by simp [hended]) (by simp [hended])

private theorem not_making_of_ended (h : w.Sound) (hended : (w.host i).serve = .ended) {t : Nat}
    {name : String} {g : Getting} (hat : w.At t name g) : g.making ≠ some i := by
  intro hg
  cases hended.symm.trans ((h.tasks t name g hat).newest i hg).2

private theorem live_afterUnmap (h : w.Sound) (hended : (w.host i).serve = .ended) {j : Nat}
    (hl : (w.afterUnmap i).Live j) : j ≠ i ∧ w.Live j := by
  have hne : j ≠ i := by
    rintro rfl
    unfold Live at hl
    rw [host_afterUnmap_self] at hl
    rcases hl with hr | he | ⟨hu, _⟩
    · cases hr
    · cases he
    · cases (down_of_ended h hended).symm.trans hu
  unfold Live at hl
  rw [host_afterUnmap_of_ne hne] at hl
  exact ⟨hne, hl⟩

/-- Where another connection is in the map, its client has left. -/
private theorem left_of_mapped (h : w.Sound) (hi : i < w.made) (hended : (w.host i).serve = .ended)
    {j : Nat} (hne : j ≠ i) (hj : w.clients (w.host i).name = some j) :
    i < j ∧ w.left (w.host i).name := by
  have hleft := h.unlisted i hi (by rw [hj]; simpa using hne) (Or.inl (Or.inr (Or.inl hended)))
  refine ⟨?_, hleft⟩
  by_contra hlt
  exact h.latest _ j i hj (by omega) hi rfl

/-- What is taken out of the map was under the client's name. -/
private theorem name_of_unmapped {j : Nat} (hold : w.clients (w.host j).name = some j)
    (hnot : (w.afterUnmap i).clients (w.host j).name ≠ some j) :
    (w.host j).name = (w.host i).name := by
  by_contra hapart
  exact hnot (setClient_none.mpr ⟨hapart, hold⟩)

private theorem taskRight_afterUnmap (h : w.Sound) (hended : (w.host i).serve = .ended) {t : Nat}
    {name : String} {g : Getting} (hat : w.At t name g) : (w.afterUnmap i).TaskRight t name g := by
  have hright := h.tasks t name g hat
  refine {
    known := hright.known, held := ?held, lock := hright.lock, newest := ?newest, absent := ?absent,
    own := ?own, refused := hright.refused }
  case held =>
    intro j hj
    rw [name_afterUnmap]
    exact hright.held j hj
  case newest =>
    intro j hj
    have hne : j ≠ i := by
      rintro rfl
      exact not_making_of_ended h hended hat hj
    rw [host_afterUnmap_of_ne hne]
    exact hright.newest j hj
  case absent =>
    intro hplace
    have habsent := hright.absent hplace
    by_contra hsome
    obtain ⟨j, hj⟩ := Option.ne_none_iff_exists'.mp hsome
    cases habsent.symm.trans (setClient_none.mp hj).2
  case own =>
    intro j k hj hk
    exact hright.own j k hj (setClient_none.mp hk).2

/-- The thread that reads takes the name out of the map, whatever connection is there. -/
theorem sound_unmap (h : w.Sound) (hi : i < w.made) (hended : (w.host i).serve = .ended) :
    (w.afterUnmap i).Sound := by
  constructor
  case tasks => exact fun _ _ _ hat => taskRight_afterUnmap h hended hat
  case listed =>
    intro name j hj
    rw [name_afterUnmap]
    exact h.listed name j (setClient_none.mp hj).2
  case latest =>
    intro name j k hj hjk hk
    rw [name_afterUnmap]
    exact h.latest name j k (setClient_none.mp hj).2 hjk hk
  case served =>
    intro name j hj
    obtain ⟨hapart, hold⟩ := setClient_none.mp hj
    have hne : j ≠ i := by
      rintro rfl
      exact hapart (h.listed name j hold).2.symm
    rw [host_afterUnmap_of_ne hne]
    exact h.served name j hold
  case down =>
    intro j hs hr
    by_cases heq : j = i
    · subst heq
      rw [host_afterUnmap_self]
      exact down_of_ended h hended
    · rw [host_afterUnmap_of_ne heq] at hs hr ⊢
      exact h.down j hs hr
  case apart => exact h.apart
  case told => exact h.told
  case marked =>
    intro j hj
    have hmarked := h.marked j hj
    by_cases heq : j = i
    · subst heq
      rw [host_afterUnmap_self]
      exact hmarked
    · rw [host_afterUnmap_of_ne heq]
      exact hmarked
  case leaver =>
    intro j hj
    rw [name_afterUnmap]
    exact h.leaver j hj
  case unlisted =>
    intro j hj hnot hactive
    rw [name_afterUnmap] at hnot ⊢
    have hne : j ≠ i := by
      rintro rfl
      rcases hactive with hl | ⟨t, name, g, hat, hg⟩
      · exact (live_afterUnmap h hended hl).1 rfl
      · exact not_making_of_ended h hended hat (by cases g <;> first | exact hg | cases hg)
    by_cases hold : w.clients (w.host j).name = some j
    · have hsame := name_of_unmapped hold hnot
      rw [hsame] at hold
      show w.left (w.host j).name
      rw [hsame]
      exact (left_of_mapped h hi hended hne hold).2
    · exact h.unlisted j hj hold (hactive.imp_left fun hl => (live_afterUnmap h hended hl).2)
  case doomed =>
    intro j k hjk hk hsame hl
    rw [name_afterUnmap, name_afterUnmap] at hsame
    rw [name_afterUnmap]
    obtain ⟨hleft, hserve, hnot⟩ := h.doomed j k hjk hk hsame (live_afterUnmap h hended hl).2
    have hne : k ≠ i := by
      rintro rfl
      cases hended.symm.trans hserve
    rw [host_afterUnmap_of_ne hne]
    exact ⟨hleft, hserve, hnot⟩
  case noticed =>
    intro name j hleft hj
    exact h.noticed name j hleft (setClient_none.mp hj).2
  case closing =>
    intro j hj hserving hup hnot
    rw [name_afterUnmap] at hnot
    have hne : j ≠ i := by
      rintro rfl
      rw [host_afterUnmap_self] at hup
      cases (down_of_ended h hended).symm.trans hup
    rw [host_afterUnmap_of_ne hne] at hserving hup ⊢
    by_cases hold : w.clients (w.host j).name = some j
    · exfalso
      have hsame := name_of_unmapped hold hnot
      rw [hsame] at hold
      obtain ⟨_, hunstarted, hnone⟩ := h.doomed i j (left_of_mapped h hi hended hne hold).1 hj
        hsame.symm (Or.inr (Or.inl hended))
      rcases hserving with hread | ⟨t, name, hat⟩
      · cases hread.symm.trans hunstarted
      · exact (hnone t name).1 hat
    · exact h.closing j hj hserving hup hold

theorem sound_host (h : w.Sound) {m : HostMove} (hclean : w.Clean (.host i m))
    (hstep : w.step (.host i m) = some w') : w'.Sound := by
  simp only [step] at hstep
  split at hstep
  case isFalse => cases hstep
  rename_i hi
  obtain ⟨c, hmove, rfl⟩ := Option.map_eq_some_iff.mp hstep
  cases m with
  | opens =>
      cases hmove
      exact sound_waits h rfl rfl rfl rfl fun hkept => Or.inr ⟨hkept.1, Or.inl rfl⟩
  | answered waiting =>
      simp only [HostConn.move] at hmove
      split at hmove
      · cases hmove
        exact sound_waits h rfl rfl rfl rfl fun hkept => Or.inr ⟨hkept.1, Or.inr rfl⟩
      · cases hmove
  | closes waiting =>
      cases hmove
      refine sound_waits h rfl rfl rfl rfl ?_
      cases waiting with
      | true => exact fun hkept => Or.inr ⟨hkept.1, Or.inl rfl⟩
      | false =>
          -- Where it was the last, `close_if_done` is still to come.
          rintro ⟨hgone, hopens | hlooks⟩
          · exact (hclean hgone hopens).imp_right fun hlooks => ⟨hgone, Or.inr hlooks⟩
          · exact Or.inr ⟨hgone, Or.inr hlooks⟩
  | close =>
      cases hmove
      exact sound_setHost h rfl (fun hu => by cases hu) id (fun hu => by cases hu) id Or.inr id id
        fun _ _ => rfl
  | check =>
      simp only [HostConn.move] at hmove
      split at hmove
      · cases hmove
        exact sound_check h false
      · cases hmove
  | serve =>
      simp only [HostConn.move] at hmove
      cases hserve : (w.host i).serve with
      | reading =>
          simp only [hserve] at hmove
          split at hmove
          · cases hmove
          · rename_i hnot
            have hdown : (w.host i).up = false := by
              simp only [Bool.or_eq_true, not_or, Bool.not_eq_true] at hnot
              exact hnot.1
            cases hmove
            refine sound_setHost h rfl id id ?_ ?_ ?_ ?_ ?_ ?_
            · exact fun hu => by cases hdown.symm.trans hu
            · exact fun hr => by cases hr
            · exact fun _ => Or.inl hserve
            · exact fun _ => Or.inr rfl
            · exact fun hu => by cases hserve.symm.trans hu
            · exact fun _ _ => hdown
      | ended =>
          simp only [hserve] at hmove
          cases hmove
          exact sound_unmap h hi hserve
      | unlisted =>
          simp only [hserve] at hmove
          cases hmove
          refine sound_setHost h rfl (fun hu => by cases hu) id (fun hu => by cases hu) ?_ ?_ ?_ ?_ ?_
          · exact fun hr => by cases hr
          · exact fun he => by cases he
          · rintro (hr | he)
            · cases hserve.symm.trans hr
            · cases hserve.symm.trans he
          · exact fun hu => by cases hserve.symm.trans hu
          · exact fun _ _ => rfl
      | unstarted | done =>
          simp only [hserve] at hmove
          cases hmove

/-- The client is taken out of the map, to be told that it has left. -/
theorem sound_notice (h : w.Sound) {name : String} (hidle : w.leaving = .idle)
    (hclean : (w.clients name).isSome → name ∈ w.notices) : (w.notice name).Sound := by
  have hkept : ∀ other, other ≠ name → other ∈ w.notices →
      other ∈ w.notices.filter (· ≠ name) := fun other hne hin =>
    List.mem_filter.mpr ⟨hin, by simpa using hne⟩
  have htold : ∀ other ∈ w.notices.filter (· ≠ name), w.left other := fun other hin =>
    h.told other (List.mem_of_mem_filter hin)
  have hfree : ∀ i, w.leaving.holds ≠ some i := by
    intro i
    rw [hidle]
    exact fun hi => by cases hi
  unfold notice
  dsimp only
  split
  · rename_i i hi
    obtain ⟨hlt, hname⟩ := h.listed name i hi
    have hleft : w.left name := h.told name (hclean (by rw [hi]; rfl))
    -- Only this connection is no longer in the map.
    have hout : ∀ j, (w.setClient name none).clients (w.host j).name ≠ some j →
        w.clients (w.host j).name ≠ some j ∨ (j = i ∧ (w.host j).name = name) := by
      intro j hnot
      by_cases hold : w.clients (w.host j).name = some j
      · have hsame : (w.host j).name = name := by
          by_contra hapart
          exact hnot (setClient_none.mpr ⟨hapart, hold⟩)
        rw [hsame] at hold
        exact Or.inr ⟨Option.some.inj (hold.symm.trans hi), hsame⟩
      · exact Or.inl hold
    refine { h with
      tasks := ?tasks, listed := ?listed, latest := ?latest, served := ?served, told := htold,
      marked := ?marked, leaver := ?leaver, unlisted := ?unlisted, noticed := ?noticed,
      closing := ?closing }
    case tasks =>
      intro t other g hat
      have hright := h.tasks t other g hat
      refine { hright with absent := ?absent, own := ?own }
      case absent =>
        intro hplace
        have habsent := hright.absent hplace
        by_contra hsome
        obtain ⟨j, hj⟩ := Option.ne_none_iff_exists'.mp hsome
        cases habsent.symm.trans (setClient_none.mp hj).2
      case own =>
        exact fun j k hj hk => hright.own j k hj (setClient_none.mp hk).2
    case listed =>
      exact fun other j hj => h.listed other j (setClient_none.mp hj).2
    case latest =>
      exact fun other j k hj => h.latest other j k (setClient_none.mp hj).2
    case served =>
      exact fun other j hj => h.served other j (setClient_none.mp hj).2
    case marked =>
      exact fun j hj => by cases hj
    case leaver =>
      intro j hj
      cases hj
      refine ⟨hlt, ?_⟩
      show w.left (w.host i).name
      rw [hname]
      exact hleft
    case unlisted =>
      intro j hj hnot hactive
      rcases hout j hnot with hold | ⟨_, hsame⟩
      · exact h.unlisted j hj hold hactive
      · show w.left (w.host j).name
        rw [hsame]
        exact hleft
    case noticed =>
      intro other j hgone hj
      obtain ⟨hne, hold⟩ := setClient_none.mp hj
      exact (h.noticed other j hgone hold).imp_left (hkept other hne)
    case closing =>
      intro j hj hserving hup hnot
      rcases hout j hnot with hold | ⟨rfl, _⟩
      · exact Or.inr ((h.closing j hj hserving hup hold).resolve_left (hfree j))
      · exact Or.inl rfl
  · rename_i habsent
    refine { h with tasks := ?tasks, told := htold, noticed := ?noticed }
    case tasks =>
      exact fun t other g hat => { h.tasks t other g hat with }
    case noticed =>
      intro other j hgone hj
      refine (h.noticed other j hgone hj).imp_left (hkept other ?_)
      rintro rfl
      cases habsent.symm.trans hj

theorem sound_leave (h : w.Sound) (hstep : w.step .leave = some w') : w'.Sound := by
  simp only [step] at hstep
  cases hleaving : w.leaving with
  | idle =>
      rw [hleaving] at hstep
      cases hstep
  | taken i =>
      rw [hleaving] at hstep
      cases hstep
      have hmarked : (w.setHost i (w.host i).mark).Sound :=
        sound_setHost h rfl id (fun _ => rfl) (fun _ hkept => Or.inr ⟨rfl, hkept.2⟩) id Or.inr id id
          (h.down i)
      have hholds : ∀ j, Leaving.holds (.marked i) = some j → w.leaving.holds = some j := by
        intro j hj
        rw [hleaving]
        exact hj
      refine { hmarked with tasks := ?tasks, marked := ?mark, leaver := ?leaver, closing := ?closing }
      case tasks =>
        exact fun t name g hat => { hmarked.tasks t name g hat with }
      case mark =>
        intro j hj
        cases hj
        show ((w.setHost i (w.host i).mark).host i).gone
        rw [show (w.setHost i (w.host i).mark).host i = (w.host i).mark from Function.update_self ..]
        rfl
      case leaver =>
        exact fun j hj => hmarked.leaver j (hholds j hj)
      case closing =>
        intro j hj hserving hup hnot
        refine (hmarked.closing j hj hserving hup hnot).imp_left ?_
        intro hheld
        rw [show (w.setHost i (w.host i).mark).leaving = .taken i from hleaving] at hheld
        exact hheld
  | marked i =>
      rw [hleaving] at hstep
      cases hstep
      have hchecked : (w.setHost i (w.host i).closeIfDone).Sound := by
        have hsame : { (w.host i).closeIfDone with looks := (w.host i).looks } =
            (w.host i).closeIfDone := by
          rcases closeIfDone_cases (w.host i) with ⟨_, _, hnow⟩ | ⟨_, hnow⟩ <;> rw [hnow]
        exact hsame ▸ sound_check h (w.host i).looks
      have hgone := h.marked i hleaving
      refine { hchecked with tasks := ?_, marked := ?_, leaver := ?_, closing := ?_ }
      · exact fun t name g hat => { hchecked.tasks t name g hat with }
      · exact fun j hj => by cases hj
      · exact fun j hj => by cases hj
      · intro j hj hserving hup hnot
        refine Or.inr ?_
        rcases hchecked.closing j hj hserving hup hnot with hheld | hkept
        · rw [show (w.setHost i (w.host i).closeIfDone).leaving = .marked i from hleaving] at hheld
          cases hheld
          -- It stays open only for what it found.
          have hthis : (w.setHost i (w.host i).closeIfDone).host i = (w.host i).closeIfDone :=
            Function.update_self ..
          show ((w.setHost i (w.host i).closeIfDone).host i).KeptOpen
          replace hup : ((w.setHost i (w.host i).closeIfDone).host i).up := hup
          rw [hthis] at hup ⊢
          rcases closeIfDone_cases (w.host i) with ⟨_, _, hnow⟩ | ⟨hopens, hnow⟩
          · rw [hnow] at hup
            cases hup
          · rw [hnow]
            exact ⟨hgone, Or.inl (hopens hgone)⟩
        · exact hkept

theorem sound_join (h : w.Sound) {name : String} (hnew : w.left name = false) :
    Sound { w with present := Function.update w.present name true } := by
  have hpresent : ∀ other, w.present other → Function.update w.present name true other := by
    intro other hthere
    by_cases heq : other = name
    · subst heq
      exact Function.update_self ..
    · rw [Function.update_of_ne heq]
      exact hthere
  refine { h with tasks := ?tasks, apart := ?apart }
  case tasks =>
    intro t other g hat
    have hright := h.tasks t other g hat
    exact { hright with known := hright.known.imp_left (hpresent other) }
  case apart =>
    intro other hleft
    have hne : other ≠ name := by
      rintro rfl
      cases hnew.symm.trans hleft
    show Function.update w.present name true other = false
    rw [Function.update_of_ne hne]
    exact h.apart other hleft

theorem sound_depart (h : w.Sound) {name : String} :
    Sound { w with present := Function.update w.present name false,
                   left := Function.update w.left name true, notices := w.notices ++ [name] } := by
  have hthis : Function.update w.left name true name = true := Function.update_self ..
  have hleft : ∀ other, w.left other → Function.update w.left name true other := by
    intro other hgone
    by_cases heq : other = name
    · subst heq
      exact hthis
    · rw [Function.update_of_ne heq]
      exact hgone
  refine { h with
    tasks := ?tasks, apart := ?apart, told := ?told, leaver := ?leaver, unlisted := ?unlisted,
    doomed := ?doomed, noticed := ?noticed }
  case tasks =>
    intro t other g hat
    have hright := h.tasks t other g hat
    refine { hright with known := ?_, refused := fun j hj => hleft other (hright.refused j hj) }
    by_cases heq : other = name
    · subst heq
      exact Or.inr hthis
    · refine hright.known.imp ?_ (hleft other)
      intro hthere
      show Function.update w.present name false other
      rw [Function.update_of_ne heq]
      exact hthere
  case apart =>
    intro other hgone
    by_cases heq : other = name
    · subst heq
      exact Function.update_self ..
    · replace hgone : Function.update w.left name true other = true := hgone
      rw [Function.update_of_ne heq] at hgone
      show Function.update w.present name false other = false
      rw [Function.update_of_ne heq]
      exact h.apart other hgone
  case told =>
    intro other hin
    rcases List.mem_append.mp hin with hold | hnew
    · exact hleft other (h.told other hold)
    · obtain rfl := List.mem_singleton.mp hnew
      exact hthis
  case leaver =>
    intro i hi
    obtain ⟨hlt, hgone⟩ := h.leaver i hi
    exact ⟨hlt, hleft _ hgone⟩
  case unlisted =>
    intro i hi hnot hactive
    exact hleft _ (h.unlisted i hi hnot hactive)
  case doomed =>
    intro i j hij hj hsame hl
    obtain ⟨hgone, hrest⟩ := h.doomed i j hij hj hsame hl
    exact ⟨hleft _ hgone, hrest⟩
  case noticed =>
    intro other i hgone hi
    by_cases heq : other = name
    · subst heq
      exact Or.inl (List.mem_append_right _ (List.mem_singleton_self _))
    · replace hgone : Function.update w.left name true other = true := hgone
      rw [Function.update_of_ne heq] at hgone
      exact (h.noticed other i hgone hi).imp_left (List.mem_append_left _)

theorem sound_step (h : w.Sound) {mv : Move} (hclean : w.Clean mv) (hstep : w.step mv = some w') :
    w'.Sound := by
  cases mv with
  | join name =>
      simp only [step] at hstep
      split at hstep
      · rename_i hall
        cases hstep
        exact sound_join h (by simpa using hall.2.2)
      · cases hstep
  | depart name =>
      simp only [step] at hstep
      split at hstep
      · cases hstep
        exact sound_depart h
      · cases hstep
  | notice m =>
      simp only [step] at hstep
      split at hstep
      · rename_i name hidle hname
        cases hstep
        exact sound_notice h hidle (hclean name hname)
      · cases hstep
        exact h
      · cases hstep
  | leave => exact sound_leave h hstep
  | call t name =>
      simp only [step] at hstep
      split at hstep
      · rename_i hall
        cases hstep
        exact sound_call h (by simpa using hall.1) hall.2
      · cases hstep
  | go t ok =>
      simp only [step] at hstep
      split at hstep
      · rename_i k hk
        exact sound_advance h hk (hclean k hk) hstep
      · cases hstep
  | host i m => exact sound_host h hclean hstep

theorem sound_initial : Sound {} := by
  refine {
    tasks := ?tasks, listed := ?listed, latest := ?latest, served := ?served, down := ?down,
    apart := ?apart, told := ?told, marked := ?marked, leaver := ?leaver, unlisted := ?unlisted,
    doomed := ?doomed, noticed := ?noticed, closing := ?closing }
  case tasks =>
    exact fun t name g hat => by cases hat
  case listed =>
    exact fun name i hi => by cases hi
  case latest =>
    exact fun name i j hi => by cases hi
  case served =>
    exact fun name i hi => by cases hi
  case down =>
    exact fun i hi => absurd rfl hi
  case apart =>
    exact fun name hleft => by cases hleft
  case told =>
    exact fun name hin => by cases hin
  case marked =>
    exact fun i hi => by cases hi
  case leaver =>
    exact fun i hi => by cases hi
  case unlisted =>
    exact fun i hi => absurd hi (Nat.not_lt_zero i)
  case doomed =>
    exact fun i j _ hj => absurd hj (Nat.not_lt_zero j)
  case noticed =>
    exact fun name i hleft => by cases hleft
  case closing =>
    exact fun i hi => absurd hi (Nat.not_lt_zero i)

end Others

/-! ## Section 9: Every Run -/

section Runs

variable {w : Registry} {i j : Nat} {name : String}

theorem InUse.live (h : w.InUse i) : w.Live i := by
  obtain ⟨_, hup, hread | hused⟩ := h
  · exact Or.inl hread
  · exact Or.inr (Or.inr ⟨hup, hused⟩)

/-- No earlier connection of the client is in use. -/
theorem Sound.not_lt (h : w.Sound) (hi : w.InUse i) (hj : w.InUse j)
    (hsame : (w.host i).name = (w.host j).name) : ¬i < j := by
  intro hlt
  obtain ⟨_, hunstarted, hnot⟩ := h.doomed i j hlt hj.1 hsame hi.live
  obtain ⟨_, _, hread | ⟨t, name, hused⟩⟩ := hj
  · cases hread.symm.trans hunstarted
  · exact (hnot t name).2 hused

theorem Held.name_eq (h : w.Sound) {t : Nat} {g : Getting} (hat : w.At t name g)
    (hg : g.holds = some i) : name = (w.host i).name :=
  ((h.tasks t name g hat).held i hg).2.symm

/-- The open connection of a client that is on the bus is in the map, or is set up. -/
theorem Sound.open_cases (h : w.Sound) (hi : w.Open i) (hpresent : w.present (w.host i).name) :
    w.clients (w.host i).name = some i ∨ ∃ t, w.At t (w.host i).name (.setUp i) := by
  obtain ⟨hlt, hup, hheld⟩ := hi
  have hstays : w.left (w.host i).name ≠ true := by
    intro hleft
    cases hpresent.symm.trans (h.apart _ hleft)
  have hactive : w.Live i ∨ w.Checked i → w.clients (w.host i).name = some i := by
    intro hactive
    by_contra hnot
    exact hstays (h.unlisted i hlt hnot hactive)
  rcases hheld with ⟨name, hlisted⟩ | ⟨t, name, g, hat, hg⟩ | hleaving | ⟨hstarted, hrest⟩
  · rw [(h.listed name i hlisted).2]
    exact Or.inl hlisted
  · obtain rfl := Held.name_eq h hat hg
    cases g with
    | setUp k =>
        cases hg
        exact Or.inr ⟨t, hat⟩
    | ask k => exact Or.inl (hactive (Or.inr ⟨t, _, _, hat, hg⟩))
    | unlist k => exact Or.inl (hactive (Or.inr ⟨t, _, _, hat, hg⟩))
    | start k => exact Or.inl (hactive (Or.inr ⟨t, _, _, hat, hg⟩))
    | use k =>
        cases hg
        exact Or.inl (hactive (Or.inl (Or.inr (Or.inr ⟨hup, t, _, hat⟩))))
    | _ => cases hg
  · exact absurd (h.leaver i hleaving).2 hstays
  · by_cases hread : (w.host i).serve = .reading
    · exact Or.inl (hactive (Or.inl (Or.inl hread)))
    · cases (h.down i hstarted hread).symm.trans hup

theorem Sound.oneEach (h : w.Sound) : w.OneEach := by
  constructor
  case one =>
    intro i j hi hj hsame
    exact Nat.le_antisymm (Nat.le_of_not_lt (h.not_lt hj hi hsame.symm))
      (Nat.le_of_not_lt (h.not_lt hi hj hsame))
  case present =>
    intro i j hi hj hsame hpresent
    rcases h.open_cases hi hpresent with hlisted | ⟨t, hat⟩
    · rw [hsame] at hlisted hpresent
      rcases h.open_cases hj hpresent with hlisted' | ⟨t', hat'⟩
      · exact Option.some.inj (hlisted.symm.trans hlisted')
      · cases hlisted.symm.trans ((h.tasks t' _ _ hat').absent (Or.inr ⟨j, rfl⟩))
    · rw [hsame] at hat hpresent
      rcases h.open_cases hj hpresent with hlisted' | ⟨t', hat'⟩
      · cases hlisted'.symm.trans ((h.tasks t _ _ hat).absent (Or.inr ⟨i, rfl⟩))
      · obtain rfl := h.locked_unique hat rfl hat' rfl
        exact Getting.setUp.inj (at_unique hat' hat).2
  case served =>
    intro name i hi
    refine (h.served name i hi).imp_right (Or.imp_right ?_)
    rintro ⟨t, other, g, hat, hg⟩
    obtain rfl := Held.name_eq h hat (Getting.holds_of_checking hg)
    rw [(h.listed name i hi).2] at hat
    exact ⟨t, g, hat, hg⟩
  case finished =>
    rintro name ⟨hleft, hread, hleaving, hnone⟩
    have habsent : w.clients name = none := by
      by_contra hsome
      obtain ⟨i, hi⟩ := Option.ne_none_iff_exists'.mp hsome
      rcases h.noticed name i hleft hi with hin | ⟨t, hask | hunlist⟩
      · exact hread hin
      · exact hnone t _ hask
      · exact hnone t _ hunlist
    refine ⟨habsent, ?_⟩
    rintro i ⟨hlt, hup, hheld⟩ rfl
    rcases hheld with ⟨other, hlisted⟩ | ⟨t, other, g, hat, hg⟩ | hleaver | ⟨hstarted, hrest⟩
    · rw [(h.listed other i hlisted).2, hlisted] at habsent
      cases habsent
    · obtain rfl := Held.name_eq h hat hg
      exact absurd hat (hnone t g)
    · exact absurd rfl (hleaving i hleaver)
    · by_cases hreading : (w.host i).serve = .reading
      · refine (h.closing i hlt (Or.inl hreading) hup ?_).resolve_left ?_
        · rw [habsent]
          simp
        · exact fun hleaver => hleaving i hleaver rfl
      · cases (h.down i hstarted hreading).symm.trans hup

end Runs

end Registry

/-- In every run whose steps meet the condition, a client has one host connection, and none is
left behind. -/
theorem one_each (moves : List Registry.Move) (w : Registry)
    (hrun : run Registry.step {} moves = some w)
    (hmeets : StepsMeet Registry.step Registry.Clean {} moves) : w.OneEach := by
  have hsound : w.Sound := by
    refine run_invariant_of_meets ?_ Registry.sound_initial hmeets hrun
    intro w mv w' hsound hclean hstep
    exact Registry.sound_step hsound hclean hstep
  exact hsound.oneEach

namespace Registry

/-- A thread goes on as far as it can without a failure. -/
def goes (t steps : Nat) : List Move :=
  List.replicate steps (.go t true)

def leaves (name : String) : Move :=
  .notice (nameOwnerChanged name name "")

/-- A client opens a link, calls again and leaves, and the host answers then. -/
def untilLeft : List Move :=
  [.join ":1.5", .call 0 ":1.5"] ++ goes 0 8 ++ [.host 0 .opens, .call 1 ":1.5"] ++ goes 1 2 ++
    [.depart ":1.5", leaves ":1.5", .leave, .leave, .host 0 (.answered false), .host 0 .check]

end Registry

theorem one_each_example :
    ∃ w, run Registry.step {} Registry.untilLeft = some w ∧ w.OneEach := by
  have hrun : (run Registry.step {} Registry.untilLeft).any
      fun w => w.made == 1 && (w.clients ":1.5").isNone && !(w.host 0).up := by
    decide
  obtain ⟨w, hw, _⟩ := exists_of_any hrun
  exact ⟨w, hw, one_each _ w hw (by decide)⟩

namespace Registry

/-- The thread that reads the connection cannot be started. -/
def untilUnread : List Move :=
  [.join ":1.5", .call 0 ":1.5"] ++ goes 0 6 ++ [.go 0 false]

/-- A second call gets the connection before its caller is looked for and found to have left. A
third makes another, which a fourth gets. -/
def untilTwo : List Move :=
  [.join ":1.5", .call 0 ":1.5"] ++ goes 0 5 ++ [.call 1 ":1.5", .go 1 true, .depart ":1.5"] ++
    [.go 0 false, .go 0 true, .call 2 ":1.5"] ++ goes 2 5 ++ [.call 3 ":1.5", .go 3 true]

/-- A link is opened, and its client leaves. A `Close` of it that waited for a `Register` is passed
on after that, and `close_if_done` is not called. -/
def untilClosed : List Move :=
  [.join ":1.5", .call 0 ":1.5"] ++ goes 0 8 ++ [.host 0 .opens, .depart ":1.5", leaves ":1.5"] ++
    [.leave, .leave, .host 0 (.closes false)]

/-- The caller has left and its departure was read, and the answer to the question for it is
forged. -/
def untilForged : List Move :=
  [.join ":1.5", .call 0 ":1.5", .depart ":1.5", leaves ":1.5"] ++ goes 0 8

end Registry

/-- A connection that nothing reads, two connections in use, two of clients that left: one stays in
the map, the other open for nothing. -/
theorem not_one_each :
    (∃ w, run Registry.step {} Registry.untilUnread = some w ∧ ¬w.OneEach) ∧
      (∃ w, run Registry.step {} Registry.untilTwo = some w ∧ ¬w.OneEach) ∧
      (∃ w, run Registry.step {} Registry.untilForged = some w ∧ ¬w.OneEach) ∧
      ∃ w, run Registry.step {} Registry.untilClosed = some w ∧ ¬w.OneEach := by
  refine ⟨⟨_, rfl, fun h => ?_⟩, ⟨_, rfl, fun h => ?_⟩, ⟨_, rfl, fun h => ?_⟩, ⟨_, rfl, fun h => ?_⟩⟩
  · rcases h.served ":1.5" 0 rfl with hread | hended | ⟨t, g, hat, _⟩
    · cases hread
    · cases hended
    · cases t with
      | zero => cases hat
      | succ t => cases hat
  · have hsame := h.one 0 1 ⟨by decide, rfl, Or.inr ⟨1, ":1.5", rfl⟩⟩
      ⟨by decide, rfl, Or.inr ⟨3, ":1.5", rfl⟩⟩ rfl
    cases hsame
  · refine absurd (h.finished ":1.5" ⟨rfl, ?_, ?_, ?_⟩).1 ?_
    · decide
    · intro i hi
      cases hi
    · intro t g hat
      cases t with
      | zero => cases hat
      | succ t => cases hat
    · intro habsent
      cases habsent
  · obtain ⟨_, hopens | hlooks⟩ := (h.finished ":1.5" ⟨rfl, by decide, (fun i hi => by cases hi), by
        intro t g hat
        cases t with
        | zero => cases hat
        | succ t => cases hat⟩).2 0 ⟨by decide, rfl, Or.inr (Or.inr (Or.inr ⟨by decide, by decide⟩))⟩ rfl
    · cases hopens
    · cases hlooks

end Psbox.Gateway
