import Psbox.Gateway.Owners

/-!
# The Identity Is Pinned

What is judged with an identity goes to the portal instance that accepted it. A client is
registered twice over: by `client()`, which waits for the portal's answer, and again by
`registered` when the portal has restarted. The reading thread looks at the kind of what it
takes for an answer; the call of the setup does not.
-/

namespace Psbox.Gateway

open Psbox.DBus Psbox.Portal Psbox.Foundations

/-! ## Section 1: What the Log Says of the Identity -/

/-- The portal instance that accepted the latest successful `Register`. -/
def lastAccepted : List Event → Option (Option String)
  | [] => none
  | .accepted owner :: _ => some owner
  | _ :: older => lastAccepted older

/-- A `Register` was answered. -/
def Event.settles : Event → Bool
  | accepted _ | refused => true
  | _ => false

theorem lastAccepted_append {es log : List Event} (hes : ∀ e ∈ es, e.settles = false) :
    lastAccepted (es ++ log) = lastAccepted log := by
  induction es with
  | nil => rfl
  | cons e es ih =>
      have he := hes e List.mem_cons_self
      have hrest := ih fun e' he' => hes e' (List.mem_cons_of_mem _ he')
      cases e <;> simp_all [lastAccepted, Event.settles]

theorem refused_mem_append {es log : List Event} (hes : ∀ e ∈ es, e.settles = false) :
    Event.refused ∈ es ++ log ↔ Event.refused ∈ log := by
  constructor
  · intro h
    rcases List.mem_append.mp h with h | h
    · exact absurd (hes _ h) (by simp [Event.settles])
    · exact h
  · exact List.mem_append_right _

/-- What an event must be, after the older ones: a call to the portal that was judged
with an identity goes to the instance that accepted it, by its unique name, and once
a registration has failed no call is judged with one. -/
def Event.Pinned (older : List Event) : Event → Prop
  | sent c identified _ _ out => c.toPortal → identified →
      ∃ o, lastAccepted older = some (some o) ∧ out.destination = some o ∧ o ≠ portalName
  | judged c identified => c.toPortal → refused ∈ older → identified = false
  | _ => True

def PinnedIdentity : List Event → Prop
  | [] => True
  | e :: older => e.Pinned older ∧ PinnedIdentity older

/-- The events that `Event.Pinned` says nothing of. -/
def Event.unpinned : Event → Bool
  | sent _ _ _ _ _ | judged _ _ => false
  | _ => true

theorem pinnedIdentity_append {es log : List Event} (hes : ∀ e ∈ es, e.unpinned)
    (h : PinnedIdentity log) : PinnedIdentity (es ++ log) := by
  induction es with
  | nil => exact h
  | cons e es ih =>
      refine ⟨?_, ih fun e' he' => hes e' (List.mem_cons_of_mem _ he')⟩
      have he := hes e List.mem_cons_self
      cases e <;> trivial

/-! ## Section 2: The Client's Steps -/

/-- The identity on record is the one that the portal accepted last. -/
structure Accepts (s : Client) : Prop where
  accepted : s.portal.appId.isSome → lastAccepted s.log = some s.portal.owner
  refused : Event.refused ∈ s.log → s.portal.appId = none

/-- What a step does to the identity. -/
inductive IdentityChange (s s' : Client) : Prop
  | same (happ : s'.portal.appId = s.portal.appId) (howner : s'.portal.owner = s.portal.owner)
      (es : List Event) (hlog : s'.log = es ++ s.log) (hes : ∀ e ∈ es, e.settles = false)
  | accepted (happ : s'.portal.appId = s.portal.appId) (hlog : s'.log = .accepted s'.portal.owner :: s.log)
  | refused (happ : s'.portal.appId = none) (hlog : s'.log = .refused :: s.log)

private theorem identity_answer {s t : Client} (c : Call) (reply : Message) (es : List Event)
    (hportal : t.portal = s.portal) (hlog : t.log = es ++ s.log) (hes : ∀ e ∈ es, e.settles = false) :
    IdentityChange s (t.answer c reply) := by
  obtain ⟨e, hanswer, he⟩ := log_answer t c reply
  refine .same (congrArg _ hportal) (congrArg _ hportal) (e :: es) (by rw [hanswer, hlog]; rfl) ?_
  intro e' he'
  rcases List.mem_cons.mp he' with rfl | he'
  · rcases he with ⟨rfl, _⟩ | ⟨rfl, _⟩ <;> rfl
  · exact hes e' he'

private theorem IdentityChange.release {s s' : Client} {t : Thread} (h : IdentityChange s s') :
    IdentityChange s (s'.release t) := by
  cases h with
  | same happ howner es hlog hes =>
      exact .same (by rw [portal_release, happ]) (by rw [portal_release, howner]) es
        (by rw [log_release, hlog]) hes
  | accepted happ hlog =>
      exact .accepted (by rw [portal_release, happ]) (by rw [log_release, portal_release, hlog])
  | refused happ hlog => exact .refused (by rw [portal_release, happ]) (by rw [log_release, hlog])

private theorem identity_quiet {s s' : Client} (h : Quiet s s') : IdentityChange s s' := by
  obtain ⟨es, hlog, hes⟩ := h.log
  refine .same (congrArg _ h.portal) (congrArg _ h.portal) es hlog fun e he => ?_
  have hclient := hes e he
  cases e <;> first | rfl | cases hclient

theorem identity_effect {cfg : Setup} {s s' : Client} {a : Action} (heff : Effect cfg s a s') :
    IdentityChange s s' := by
  cases heff with
  | quiet hquiet => exact identity_quiet hquiet
  | registerAccepted _ _ => exact .accepted rfl rfl
  | registerRefused _ _ => exact .refused rfl rfl
  | readAnswered c reply _ _ _ _ => exact identity_answer c reply [.read c] rfl rfl (by simp [Event.settles])
  | found _ | notToPortal _ _ | noIdentity _ _ _ _ | sameOwner _ _ _ _ _ | identified _ =>
      exact .same (by rw [portal_goOn]) (by rw [portal_goOn]) [] (log_goOn _ _ _ _) (by simp)
  | unlisted _ =>
      obtain ⟨openRequests, hunlist⟩ := unlist_eq s _ _
      rw [hunlist]
      exact .same (by rw [portal_goOn]) (by rw [portal_goOn]) [] (log_goOn _ _ _ _) (by simp)
  | allowed _ _ hat =>
      exact .same (by rw [portal_goOn]; rfl) (by rw [portal_goOn]; rfl) [_] (log_goOn _ _ _ _)
        (by simp [Event.settles])
  | left _ =>
      obtain ⟨shut, hshut, _⟩ := closeIfDone_eq s
      rw [hshut]
      exact .same rfl rfl [] rfl (by simp)
  | answeredByPolicy reply _ _ =>
      exact IdentityChange.release (identity_answer _ reply [.judged _ _] rfl rfl (by simp [Event.settles]))
  | unanswerable text _ => exact (identity_answer _ _ [] rfl rfl (by simp)).release
  | registerFailed text _ | sendFailed text _ =>
      exact IdentityChange.release (identity_answer (s := s) (t := s.tick) _ _ [] rfl rfl (by simp))
  | elsewhere _ => exact IdentityChange.release (.same rfl rfl [_] rfl (by simp [Event.settles]))
  | sent p _ _ _ _ _ _ => exact IdentityChange.release (.same rfl rfl [_] rfl (by simp [Event.settles]))
  | sentNoReply _ _ => exact IdentityChange.release (.same rfl rfl [_, _] rfl (by simp [Event.settles]))
  | heldBehind _ _ _ => exact IdentityChange.release (.same rfl rfl [] rfl (by simp))
  | registerHeld _ _ _ _ _ _ _ =>
      exact IdentityChange.release (.same rfl rfl [_] rfl (by simp [Event.settles]))
  | failsToGone _ _ | fails _ =>
      refine .same rfl rfl _ rfl fun e he => ?_
      obtain ⟨p, _, rfl⟩ := List.mem_map.mp he
      rfl
  | readCall _ _ _ _ | registerAgain _ _ _ | received _ _ | receivedUndecodable _ _ _ _
  | receivedUnknown _ _ _ | replyToGone _ _ | replyRelayed _ =>
      exact .same rfl rfl [_] rfl (by simp [Event.settles])
  | _ => exact .same rfl rfl [] rfl (by simp)

theorem accepts_effect {cfg : Setup} {s s' : Client} {a : Action} (h : Accepts s) (heff : Effect cfg s a s') :
    Accepts s' := by
  cases identity_effect heff with
  | same happ howner es hlog hes =>
      constructor
      · rw [happ, howner, hlog, lastAccepted_append hes]
        exact h.accepted
      · rw [happ, hlog, refused_mem_append hes]
        exact h.refused
  | accepted happ hlog =>
      constructor
      · intro _
        rw [hlog]
        rfl
      · intro hrefused
        rw [hlog] at hrefused
        rw [happ]
        exact h.refused (by simpa using hrefused)
  | refused happ hlog =>
      constructor
      · intro hsome
        rw [happ] at hsome
        cases hsome
      · exact fun _ => happ

private theorem pinned_judged {s : Client} {t : Thread} {c : Call} {dest : Option String}
    {identified : Bool} (h : Registration s) (haccepts : Accepts s) (hat : s.At t c (.judge dest identified)) :
    (Event.judged c identified).Pinned s.log := by
  intro hportal hrefused
  by_contra hid
  obtain ⟨happ, _⟩ := h.pinned t c _ hat hportal (by simpa using hid)
  rw [haccepts.refused hrefused] at happ
  cases happ

private theorem pinned_sent {s : Client} {t : Thread} {c : Call} {identified : Bool}
    {file : Option FileRequest} {out : Message} {serial : Nat} (h : Registration s)
    (haccepts : Accepts s) (hat : s.At t c (.send identified file out)) :
    (Event.sent c identified file serial out).Pinned s.log := by
  intro hportal hid
  obtain ⟨happ, howner, hdest⟩ := h.pinned t c _ hat hportal hid
  obtain ⟨o, ho⟩ := Option.isSome_iff_exists.mp howner
  refine ⟨o, by rw [haccepts.accepted happ, ho], by rw [hdest, ho], ?_⟩
  rintro rfl
  have hname := h.owner _ ho
  revert hname
  decide

private theorem unpinned_answer (s : Client) (c : Call) (reply : Message) :
    ∃ e, (s.answer c reply).log = e :: s.log ∧ e.unpinned := by
  refine ⟨_, rfl, ?_⟩
  split <;> rfl

private theorem pinned_answer {s : Client} (c : Call) (reply : Message)
    (h : PinnedIdentity s.log) : PinnedIdentity (s.answer c reply).log := by
  obtain ⟨e, hlog, he⟩ := unpinned_answer s c reply
  rw [hlog]
  exact ⟨by cases e <;> trivial, h⟩

private theorem pinned_effect {cfg : Setup} {s s' : Client} {a : Action} (h : Registration s)
    (haccepts : Accepts s) (hpinned : PinnedIdentity s.log) (heff : Effect cfg s a s') : PinnedIdentity s'.log := by
  cases heff with
  | found _ | notToPortal _ _ | noIdentity _ _ _ _ | sameOwner _ _ _ _ _ | identified _ =>
      rwa [log_goOn]
  | unlisted _ => rwa [log_goOn, log_unlist]
  | left _ => exact (log_closeIfDone s).symm ▸ hpinned
  | allowed _ _ hat =>
      rw [log_goOn]
      exact ⟨pinned_judged h haccepts hat, hpinned⟩
  | answeredByPolicy reply hat _ =>
      rw [log_release]
      exact pinned_answer _ reply ⟨pinned_judged h haccepts hat, hpinned⟩
  | sent p hat _ _ _ _ _ =>
      rw [log_release]
      exact ⟨pinned_sent (s := s) h haccepts hat, hpinned⟩
  | sentNoReply hat _ =>
      rw [log_release]
      exact ⟨trivial, pinned_sent (s := s) h haccepts hat, hpinned⟩
  | readAnswered c reply _ _ _ _ => exact pinned_answer c reply ⟨trivial, hpinned⟩
  | unanswerable text _ =>
      rw [log_release]
      exact pinned_answer _ _ hpinned
  | registerFailed text _ | sendFailed text _ =>
      rw [log_release]
      exact pinned_answer (s := s.tick) _ _ hpinned
  | elsewhere _ =>
      rw [log_release]
      exact ⟨trivial, hpinned⟩
  | failsToGone _ _ | fails _ =>
      refine pinnedIdentity_append ?_ hpinned
      intro e he
      obtain ⟨p, _, rfl⟩ := List.mem_map.mp he
      rfl
  | quiet hquiet =>
      obtain ⟨es, hlog, hes⟩ := hquiet.log
      rw [hlog]
      refine pinnedIdentity_append ?_ hpinned
      intro e he
      have hclient := hes e he
      cases e <;> first | rfl | cases hclient
  | readCall _ _ _ _ | registerHeld _ _ _ _ _ _ _ | registerAgain _ _ _ | received _ _
  | receivedUndecodable _ _ _ _ | receivedUnknown _ _ _ | registerAccepted _ _
  | registerRefused _ _ | replyToGone _ _ | replyRelayed _ => exact ⟨trivial, hpinned⟩
  | _ => exact hpinned

/-- What holds of a client that is served. -/
structure Identified (s : Client) : Prop where
  registration : Registration s
  accepts : Accepts s
  pinned : PinnedIdentity s.log

theorem identified_step {cfg : Setup} {s s' : Client} {a : Action} (h : Identified s)
    (hstep : step cfg s a = some s') : Identified s' :=
  have heff := step_effect hstep
  ⟨registration_step h.registration hstep, accepts_effect h.accepts heff,
    pinned_effect h.registration h.accepts h.pinned heff⟩

/-! ## Section 3: The Setup -/

/-- A `Register` is to be made next, or waits. -/
def World.asksRegister (w : World) : Bool :=
  match w.phase with
  | .settingUp u =>
      match u.todo with
      | .register _ :: _ => true
      | _ => false
  | _ => false

/-- What is read with the serial of the setup's `Register`, while that waits, and can be decoded is a
reply. -/
def World.TakesReply (w : World) : Move → Prop
  | .hear => w.asksRegister → ∀ d ∈ w.line.head?, d.arrival.decoded.isSome →
      serialOf d.arrival.header = w.waiting → isReply d.arrival.header
  | _ => True

instance (w : World) : DecidablePred w.TakesReply
  | .hear => inferInstanceAs (Decidable (w.asksRegister → ∀ d ∈ w.line.head?, d.arrival.decoded.isSome →
      serialOf d.arrival.header = w.waiting → isReply d.arrival.header))
  | .change .. | .answer _ | .deliver _ | .ask _ | .breaks | .receive | .serve _ => .isTrue trivial

/-- What the setup knows of the identity: the sender of the return that it read, if any. -/
structure Setting (todo : List Question) (appId owner : Option String) (log : List Event) : Prop where
  /-- The client is registered first, and once. -/
  first : ∀ q rest, todo = q :: rest → ∀ app, .register app ∉ rest
  fresh : ∀ app, .register app ∈ todo → log = [] ∧ appId = none
  named : ∀ o, owner = some o → senderName o
  accepted : appId.isSome → lastAccepted log = some owner
  refused : Event.refused ∈ log → appId = none
  settles : ∀ e ∈ log, e.settles

/-- What is read has its sender from the bus. -/
def Named (ds : List Delivery) : Prop :=
  ∀ d ∈ ds, d.arrival.header.sender.any senderName

def Phase.Pinned : Phase → Prop
  | .settingUp u => Setting u.todo u.appId u.owner u.log
  | .failed => True
  | .serving s => Identified s

structure World.Pinned (w : World) : Prop where
  named : Named (w.backlog ++ w.line)
  phase : w.phase.Pinned

theorem Setting.next {u : SettingUp} (h : Setting u.todo u.appId u.owner u.log) : u.next.Pinned := by
  rcases next_cases u with hnext | ⟨-, hnext⟩
  · rw [hnext]
    exact h
  · rw [hnext]
    have hreplied : ∀ n, ¬ Replied u.log n := by
      rintro n ⟨a, ha, -⟩
      cases h.settles _ ha
    refine ⟨registration_initial h.named hreplied, ⟨h.accepted, h.refused⟩, ?_⟩
    have hpinned : PinnedIdentity (u.log ++ []) := by
      refine pinnedIdentity_append (fun e he => ?_) trivial
      have hsettles := h.settles e he
      cases e <;> first | rfl | cases hsettles
    simpa [Gateway.initial] using hpinned

/-- A call of the setup ends. What ends a `Register` well is a return. -/
theorem Setting.finish {u : SettingUp} {q : Question} {rest : List Question} {r : Received}
    (h : Setting u.todo u.appId u.owner u.log) (htodo : u.todo = q :: rest)
    (hreturn : ∀ app reply fds, q = .register app → r = .ok (reply, fds) →
      reply.kind = Kind.methodReturn ∧ reply.sender.any senderName) :
    (u.finish q rest r).Pinned := by
  have hfirst : ∀ app, .register app ∉ rest := h.first q rest htodo
  -- Nothing of the setup is left that registers.
  have hrest : ∀ {appId owner : Option String} {log : List Event},
      (∀ o, owner = some o → senderName o) → (appId.isSome → lastAccepted log = some owner) →
      (Event.refused ∈ log → appId = none) → (∀ e ∈ log, e.settles) → Setting rest appId owner log :=
    fun hnamed haccepted hrefused hsettles =>
      ⟨fun q' rest' hcons app hmem => hfirst app (hcons ▸ List.mem_cons_of_mem _ hmem),
        fun app hmem => absurd hmem (hfirst app), hnamed, haccepted, hrefused, hsettles⟩
  have hsame : Setting rest u.appId u.owner u.log := hrest h.named h.accepted h.refused h.settles
  cases q with
  | register app =>
      obtain ⟨hlog, happ⟩ := h.fresh app (htodo ▸ List.mem_cons_self)
      cases r with
      | ok reply =>
          obtain ⟨reply, fds⟩ := reply
          obtain ⟨hkind, hsender⟩ := hreturn app reply fds rfl rfl
          refine Setting.next (hrest (fun o ho => ?_) (fun _ => ?_) (fun hrefused => ?_) fun e he => ?_)
          · have howner : reply.sender = some o := ho
            simpa [howner] using hsender
          · simp [hkind, lastAccepted]
          · simp [hkind, hlog] at hrefused
          · simp only [hkind, hlog, if_true, List.mem_singleton] at he
            rw [he]
            rfl
      | error e =>
          refine Setting.next (hrest h.named (fun hsome => ?_) (fun _ => happ) fun e he => ?_)
          · have hsome' : u.appId.isSome := hsome
            rw [happ] at hsome'
            cases hsome'
          · rw [hlog, List.mem_singleton] at he
            rw [he]
            rfl
  | addMatch rule =>
      cases r with
      | ok reply => exact Setting.next hsame
      | error e => trivial
  | getNameOwner name =>
      cases r with
      | error e => exact Setting.next hsame
      | ok reply =>
          obtain ⟨reply, fds⟩ := reply
          unfold SettingUp.finish
          dsimp only
          split <;> exact Setting.next hsame

/-! ## Section 4: Every Run -/

section Moves

variable {cfg : Setup} {w w' : World}

theorem senderName_bus : (some busName).any senderName := by
  decide

theorem sender_of_ownerChange {m : Message} {c : String × Option String} (h : ownerChange m = some c) :
    m.sender = some busName := by
  unfold ownerChange at h
  split at h
  · rename_i hbus
    exact hbus.2.1
  · cases h

theorem Named.put {backlog line : List Delivery} {d : Delivery} (h : Named (backlog ++ line))
    (hd : d.arrival.header.sender.any senderName) : Named (backlog ++ (line ++ [d])) := by
  rw [← List.append_assoc]
  exact List.forall_mem_append.mpr ⟨h, List.forall_mem_singleton.mpr hd⟩

theorem setting_of_phase (h : w.Pinned) {u : SettingUp} (hphase : w.phase = .settingUp u) :
    Setting u.todo u.appId u.owner u.log := by
  have hpinned := h.phase
  rwa [hphase] at hpinned

theorem identified_of_phase (h : w.Pinned) {s : Client} (hphase : w.phase = .serving s) : Identified s := by
  have hpinned := h.phase
  rwa [hphase] at hpinned

/-- What a call returns is a message with its serial, and no error. -/
theorem heard_ok {n : Nat} {a : Arrival} {reply : Message} {fds : List Fd}
    (h : heard n a = .ends (.ok (reply, fds))) :
    a = .message reply fds ∧ serialOf reply = some n ∧ reply.kind ≠ Kind.error := by
  cases a with
  | message m mfds =>
      simp only [heard] at h
      split at h
      · rename_i hserial
        have hok := Heard.ends.inj h
        unfold callResult at hok
        split at hok
        · cases hok
        · rename_i hkind
          cases hok
          exact ⟨rfl, hserial, hkind⟩
      · split at h <;> cases h
  | undecodable u =>
      simp only [heard] at h
      split at h <;> cases h

/-- A call of the setup ends by what is read, or goes on waiting. -/
theorem pinned_hear (h : w.Pinned) (hclean : w.TakesReply .hear) (hstep : w.hear = some w') : w'.Pinned := by
  unfold World.hear at hstep
  -- Only a setup that waits hears, and only what is on the line.
  split at hstep
  swap
  · cases hstep
  rename_i u hphase
  split at hstep
  swap
  · cases hstep
  rename_i n q rest d line hwaiting htodo hline
  have hsetting := setting_of_phase h hphase
  have hnamed := h.named
  rw [hline] at hnamed
  have hline' : Named (w.backlog ++ line) := fun d' hd' =>
    hnamed d' (List.append_sublist_append_left w.backlog |>.mpr (List.sublist_cons_self d line) |>.subset hd')
  cases hheard : heard n d.arrival with
  -- The call has its result: for `Register` it is the portal that accepted.
  | ends r =>
      rw [hheard] at hstep
      cases hstep
      refine ⟨hline', hsetting.finish htodo ?_⟩
      rintro app reply fds rfl rfl
      obtain ⟨harrival, hserial, hkind⟩ := heard_ok hheard
      have hsender := hnamed d (List.mem_append_right _ List.mem_cons_self)
      have hasks : w.asksRegister := by simp [World.asksRegister, hphase, htodo]
      have hreply := hclean hasks d (by simp [hline]) (by rw [harrival]; rfl)
        (by rw [harrival]; simpa [World.waiting, hphase, hwaiting, Arrival.header] using hserial)
      rw [harrival] at hreply hsender
      refine ⟨?_, hsender⟩
      have hor : reply.kind = Kind.methodReturn ∨ reply.kind = Kind.error := by
        simpa [isReply, Arrival.header] using hreply
      exact hor.resolve_right hkind
  -- What is not for the call waits for the thread that serves the client.
  | kept =>
      rw [hheard] at hstep
      cases hstep
      refine ⟨?_, h.phase⟩
      simpa using hnamed
  | dropped =>
      rw [hheard] at hstep
      cases hstep
      exact ⟨hline', h.phase⟩

theorem pinned_step (h : w.Pinned) {mv : Move} (hclean : w.TakesReply mv)
    (hstep : World.step cfg w mv = some w') : w'.Pinned := by
  cases mv with
  -- What is put on the line was not read yet.
  | change name new m =>
      simp only [World.step] at hstep
      split at hstep
      · rename_i hall
        cases hstep
        unfold World.changeOwner
        dsimp only
        split
        · refine ⟨h.named.put ?_, h.phase⟩
          show m.sender.any senderName
          rw [sender_of_ownerChange hall.1]
          exact senderName_bus
        · exact ⟨h.named, h.phase⟩
      · cases hstep
  | answer m =>
      simp only [World.step, World.answer] at hstep
      split at hstep
      · cases hstep
      · rename_i n q rest _
        split at hstep
        · rename_i hm
          cases hstep
          have hput : m.sender.any senderName := by
            rw [hm.1]
            exact senderName_bus
          cases q <;> exact ⟨h.named.put hput, h.phase⟩
        · cases hstep
  | deliver a =>
      simp only [World.step] at hstep
      split at hstep
      · rename_i hmay
        cases hstep
        simp only [World.mayDeliver, Bool.and_eq_true] at hmay
        exact ⟨h.named.put hmay.1.1, h.phase⟩
      · cases hstep
  -- Asking accepts nothing.
  | ask sent =>
      simp only [World.step, World.ask] at hstep
      split at hstep
      swap
      · cases hstep
      rename_i u hphase
      have hsetting := setting_of_phase h hphase
      split at hstep
      swap
      · cases hstep
      rename_i q rest hwaiting htodo
      split at hstep
      · cases hstep
        split <;> exact ⟨h.named, hsetting⟩
      · cases hstep
        exact ⟨h.named, Setting.finish (u := { u with serial := u.serial + 1 }) hsetting htodo
          fun _ _ _ _ hr => by cases hr⟩
  | hear => exact pinned_hear h hclean hstep
  | breaks =>
      simp only [World.step, World.breaks] at hstep
      split at hstep
      swap
      · cases hstep
      rename_i u hphase
      split at hstep
      swap
      · cases hstep
      rename_i n q rest hwaiting htodo
      cases hstep
      exact ⟨h.named, (setting_of_phase h hphase).finish htodo fun _ _ _ _ hr => by cases hr⟩
  | receive =>
      simp only [World.step, World.receive] at hstep
      split at hstep
      swap
      · cases hstep
      rename_i s hphase
      have hidentified := identified_of_phase h hphase
      have hnamed := h.named
      split at hstep
      · rename_i d backlog hbacklog
        obtain ⟨s', hs', rfl⟩ := Option.map_eq_some_iff.mp hstep
        rw [hbacklog] at hnamed
        refine ⟨fun d' hd' => hnamed d' (List.mem_cons_of_mem _ hd'), ?_⟩
        have hstep' : step cfg s (.receive d.arrival) = some s' := hs'
        exact identified_step hidentified hstep'
      · rename_i d line hbacklog hline
        obtain ⟨s', hs', rfl⟩ := Option.map_eq_some_iff.mp hstep
        rw [hbacklog, hline] at hnamed
        have hstep' : step cfg s (.receive d.arrival) = some s' := hs'
        refine ⟨?_, identified_step hidentified hstep'⟩
        rw [hbacklog]
        exact fun d' hd' => hnamed d' (List.mem_cons_of_mem _ hd')
      · cases hstep
  | serve a =>
      simp only [World.step, World.serve] at hstep
      split at hstep
      swap
      · cases hstep
      rename_i s hphase
      split at hstep
      · cases hstep
      · obtain ⟨s', hs', rfl⟩ := Option.map_eq_some_iff.mp hstep
        exact ⟨h.named, identified_step (identified_of_phase h hphase) hs'⟩

end Moves

theorem pinned_initial (owners : Owners) (identity : Option String) (serial : Nat) :
    (World.initial owners identity serial).Pinned := by
  have hfollow : ∀ app, .register app ∉ gatewayNames.flatMap follow := by
    intro app
    simp [gatewayNames, follow]
  refine ⟨fun d hd => absurd hd List.not_mem_nil, ?_, fun _ _ => ⟨rfl, rfl⟩, (fun o ho => by cases ho),
    (fun h => by cases h), fun h => absurd h List.not_mem_nil, fun e he => absurd he List.not_mem_nil⟩
  intro q rest htodo app hmem
  have htodo' : script identity = q :: rest := htodo
  cases identity with
  | none =>
      have hall : gatewayNames.flatMap follow = q :: rest := htodo'
      exact hfollow app (hall ▸ List.mem_cons_of_mem _ hmem)
  | some app' =>
      have hrest : gatewayNames.flatMap follow = rest := (List.cons.inj htodo').2
      exact hfollow app (hrest ▸ hmem)

/-- Whatever the interleaving of calls, replies and restarts of the portal, what is judged with an
identity goes to the portal instance that accepted it, in the runs in which the setup's `Register`
takes a reply for its answer. -/
theorem identity_is_pinned (cfg : Setup) (owners : Owners) (identity : Option String) (serial : Nat)
    (moves : List Move) (w : World)
    (hrun : run (World.step cfg) (World.initial owners identity serial) moves = some w)
    (hmeets : StepsMeet (World.step cfg) World.TakesReply (World.initial owners identity serial) moves) :
    ∀ s, w.phase = .serving s → PinnedIdentity s.log := by
  have hkeep : ∀ w mv w', w.Pinned → w.TakesReply mv → World.step cfg w mv = some w' → w'.Pinned :=
    fun _ _ _ h hclean hstep => pinned_step h hclean hstep
  have hpinned := run_invariant_of_meets hkeep (pinned_initial owners identity serial) hmeets hrun
  exact fun s hphase => (identified_of_phase hpinned hphase).pinned

/-- A return to a `Register`. -/
def registered (n : UInt32) (sender : String) : Message :=
  { kind := Kind.methodReturn, replySerial := some n, sender := some sender }

/-- The portal accepts the registration of the setup. -/
def untilRegistered : List Move :=
  [.ask true, .deliver (.message (registered 2 ":1.5") []), .hear]

/-- The owners of the gateway names are asked for. -/
def untilFollowed (owner : String) : List Move :=
  called (ruleAdded 3) ++ called (ruleAdded 4) ++ called (ownerReturn 5 owner) ++
    called (ruleAdded 6) ++ called (ruleAdded 7) ++ called (noOwner 8)

/-- The portal restarts, and a call is held for it. -/
def untilHeld : List Move :=
  .change portalName (some ":1.7") (nameOwnerChanged portalName ":1.5" ":1.7") :: .receive ::
    List.replicate 4 (.serve (.relay {})) ++
    .serve (.read .portal (.message settingsCall [])) :: List.replicate 2 (.serve (.serve .portal {}))

/-- The call goes to the new portal once that has accepted the registration too. -/
def untilSent : List Move :=
  untilRegistered ++ untilFollowed ":1.5" ++ untilHeld ++
    .deliver (.message (registered 9 ":1.7") []) :: .receive :: List.replicate 10 (.serve (.relay {}))

/-- An event that sends a call, judged with an identity, to the new portal. -/
def Event.toNewPortal : Event → Bool
  | sent _ identified _ _ out => identified && out.destination == some ":1.7"
  | _ => false

def portalRan : Owners := fun name => if name = portalName then some ":1.5" else none

/-- The client is served, and what happened so far is such. -/
def World.servesWith (w : World) (p : List Event → Bool) : Bool :=
  match w.phase with
  | .serving s => p s.log
  | _ => false

theorem World.of_servesWith {w : World} {p : List Event → Bool} (h : w.servesWith p) :
    ∃ s, w.phase = .serving s ∧ p s.log := by
  unfold World.servesWith at h
  split at h
  case h_2 => cases h
  rename_i s hphase
  exact ⟨s, hphase, h⟩

theorem identity_is_pinned_restarted :
    ∃ w, run (World.step exampleSetup) (World.initial portalRan (some "org.example.App") 2) untilSent = some w ∧
      ∃ s, w.phase = .serving s ∧ s.log.any Event.toNewPortal ∧ PinnedIdentity s.log := by
  have hrun : (run (World.step exampleSetup) (World.initial portalRan (some "org.example.App") 2) untilSent).any
      fun w => w.servesWith (·.any Event.toNewPortal) := by
    decide +kernel
  obtain ⟨w, hw, hstate⟩ := exists_of_any hrun
  have hpinned := identity_is_pinned _ _ _ _ _ w hw (by decide +kernel)
  obtain ⟨s, hphase, hnew⟩ := World.of_servesWith hstate
  exact ⟨w, hw, s, hphase, hnew, hpinned s hphase⟩

/-- A signal that any peer on the host can send to the connection. -/
def forged (n : UInt32) : Message :=
  Message.setBody
    { kind := Kind.signal, path := some "/", interface := some "org.example.Any", member := some "Any",
      sender := some ":1.66", replySerial := some n }
    [.str ":1.66"]

/-- The forged signals are read before the answers of the portal and of the bus. -/
def untilMisled : List Move :=
  [.ask true, .deliver (.message (forged 2) []), .deliver (.message (registered 2 ":1.7") []), .hear] ++
    [.ask true, .answer (ruleAdded 3), .hear, .hear] ++ called (ruleAdded 4) ++
    [.ask true, .deliver (.message (forged 5) []), .answer (ownerReturn 5 ":1.7"), .hear] ++
    [.ask true, .answer (ruleAdded 6), .hear, .hear] ++ called (ruleAdded 7) ++ called (noOwner 8) ++
    .serve (.read .portal (.message settingsCall [])) :: List.replicate 6 (.serve (.serve .portal {}))

/-- The last event sends a call, judged with an identity, that no portal has accepted. -/
def unaccepted : List Event → Bool
  | .sent c identified _ _ _ :: older => c.toPortal && identified && (lastAccepted older).isNone
  | _ => false

theorem not_pinned_of_unaccepted {log : List Event} (h : unaccepted log) : ¬PinnedIdentity log := by
  intro hpinned
  unfold unaccepted at h
  split at h
  · rename_i c identified file n out older
    simp only [Bool.and_eq_true, Option.isNone_iff_eq_none] at h
    obtain ⟨⟨hportal, hidentified⟩, hnone⟩ := h
    obtain ⟨o, ho, -⟩ := hpinned.1 hportal hidentified
    rw [hnone] at ho
    cases ho
  · cases h

/-- A peer's signals are taken for the portal's return to `Register` and for the bus's answer: a call
judged with an identity is sent to the peer, which accepted nothing. -/
theorem identity_not_pinned :
    ∃ w, run (World.step exampleSetup) (World.initial portalRuns (some "org.example.App") 2) untilMisled = some w ∧
      ∃ s, w.phase = .serving s ∧ ¬PinnedIdentity s.log := by
  have hrun : (run (World.step exampleSetup) (World.initial portalRuns (some "org.example.App") 2) untilMisled).any
      fun w => w.servesWith unaccepted := by
    decide
  obtain ⟨w, hw, hstate⟩ := exists_of_any hrun
  obtain ⟨s, hphase, hunaccepted⟩ := World.of_servesWith hstate
  exact ⟨w, hw, s, hphase, not_pinned_of_unaccepted hunaccepted⟩

end Psbox.Gateway
