import Psbox.Foundations.Tokens
import Psbox.Gateway.Registration

/-!
# One Answer for Each Call

A call that was read from the client is in one place at a time: with a serving
thread, held, pending, with the reading thread, or out of the gateway's hands,
answered or finished. Every step of the system moves calls from one place to
another, so no call is answered twice or lost on the way; `Answering` adds what
holds of the calls in each place.

## Main results

* `answered_once`: each call that expects a reply is answered at most once, as its
  own, and has been answered once the host replied to it or the host connection has
  closed, in the runs that meet `AnswersDue`.
* `held_calls_unanswered`: a run in which the connection closes on a held call.
-/

namespace Psbox.Gateway

open Psbox.DBus Psbox.Portal Psbox.Foundations

/-! ## Section 1: Where a Call Is -/

inductive Place where
  | serving (via : Via)
  | held
  | pending
  | reader
  | answered
  | finished
  deriving DecidableEq

def Serving.calls : Serving → List Call
  | forwarding c _ => [c]
  | _ => []

def Event.answeredCall : Event → Option Call
  | answered c _ _ => some c
  | _ => none

def Event.finishedCall : Event → Option Call
  | finished c _ => some c
  | _ => none

namespace Client

/-- The calls at a place. -/
def tokens (s : Client) : Place → Multiset Call
  | .serving via => (s.serving via).calls
  | .held => s.portal.held
  | .pending => s.pending.map fun e => e.2.call
  | .reader => s.reader.calls
  | .answered => s.log.filterMap Event.answeredCall
  | .finished => s.log.filterMap Event.finishedCall

/-- The call was read from the client. -/
def WasRead (s : Client) (c : Call) : Prop :=
  .read c ∈ s.log

/-- The call was answered. -/
def Answered (s : Client) (c : Call) : Prop :=
  ∃ via reply, .answered c via reply ∈ s.log

end Client

def Thread.place : Thread → Place
  | .serving via => .serving via
  | .reader _ => .reader

@[simp] theorem mem_tokens_answered {s : Client} {c : Call} :
    c ∈ s.tokens .answered ↔ s.Answered c := by
  simp only [Client.tokens, Multiset.mem_coe, List.mem_filterMap, Client.Answered]
  constructor
  · rintro ⟨e, he, hc⟩
    cases e <;> cases hc
    exact ⟨_, _, he⟩
  · rintro ⟨via, reply, he⟩
    exact ⟨_, he, rfl⟩

@[simp] theorem mem_tokens_finished {s : Client} {c : Call} :
    c ∈ s.tokens .finished ↔ ∃ why, .finished c why ∈ s.log := by
  simp only [Client.tokens, Multiset.mem_coe, List.mem_filterMap]
  constructor
  · rintro ⟨e, he, hc⟩
    cases e <;> cases hc
    exact ⟨_, he⟩
  · rintro ⟨why, he⟩
    exact ⟨_, he, rfl⟩

/-! ## Section 2: Steps Move Calls -/

section Moves

variable {s s₁ : Client} {t : Thread} {c : Call} {st : Stage}

/-- Events that end no call leave the calls where they are. -/
theorem tokens_congr (s s' : Client) (hserving : ∀ via, (s'.serving via).calls = (s.serving via).calls)
    (hheld : s'.portal.held = s.portal.held) (hpending : s'.pending = s.pending)
    (hreader : s'.reader.calls = s.reader.calls)
    (hlog : ∃ es, s'.log = es ++ s.log ∧ ∀ e ∈ es, e.answeredCall = none ∧ e.finishedCall = none)
    (p : Place) : s'.tokens p = s.tokens p := by
  obtain ⟨es, hlog, hes⟩ := hlog
  have hanswered : es.filterMap Event.answeredCall = [] :=
    List.filterMap_eq_nil_iff.mpr fun e he => (hes e he).1
  have hfinished : es.filterMap Event.finishedCall = [] :=
    List.filterMap_eq_nil_iff.mpr fun e he => (hes e he).2
  cases p with
  | serving via => simp only [Client.tokens, hserving via]
  | held => simp only [Client.tokens, hheld]
  | pending => simp only [Client.tokens, hpending]
  | reader => simp only [Client.tokens, hreader]
  | answered =>
      simp only [Client.tokens, hlog, List.filterMap_append, hanswered, List.nil_append]
  | finished =>
      simp only [Client.tokens, hlog, List.filterMap_append, hfinished, List.nil_append]

theorem tokens_goOn {st' : Stage} (hat : s.At t c st) (p : Place) :
    (s.goOn t c st').tokens p = s.tokens p := by
  refine tokens_congr s _ ?_ ?_ ?_ ?_ ⟨[], log_goOn s t c st', by simp⟩ p
  · intro via
    cases t with
    | serving via' =>
        simp only [Client.goOn, Client.setServing]
        split
        · rename_i hvia
          have hforwarding : s.serving via' = .forwarding c st := hat
          rw [hvia, hforwarding]
          rfl
        · rfl
    | reader rest => rfl
  · cases t <;> rfl
  · cases t <;> rfl
  · cases t with
    | serving via => rfl
    | reader rest =>
        have hpassing : s.reader = .passing c st rest := hat
        rw [hpassing]
        rfl

theorem tokens_release_of_ne {p : Place} (hp : p ≠ t.place) :
    (s.release t).tokens p = s.tokens p := by
  cases t with
  | serving via =>
      cases p with
      | serving via' =>
          have hvia : via' ≠ via := fun h => hp (by rw [h]; rfl)
          simp only [Client.tokens, Client.release, Client.setServing, if_neg hvia]
      | _ => rfl
  | reader rest =>
      cases p with
      | reader => exact absurd rfl hp
      | _ => rfl

/-- A thread is done with its call, which has come to another place. -/
theorem moves_release {b : Place} (hat : s.At t c st) (hb : b ≠ t.place)
    (hissue : Issues s.tokens s₁.tokens b c) :
    Moves s.tokens (s₁.release t).tokens t.place b {c} := by
  constructor
  case source =>
    cases t with
    | serving via =>
        have hforwarding : s.serving via = .forwarding c st := hat
        simp only [Client.tokens, Thread.place, Client.release, Client.setServing, if_true,
          hforwarding, Serving.calls]
        rfl
    | reader rest =>
        have hpassing : s.reader = .passing c st rest := hat
        simp only [Client.tokens, Thread.place, Client.release, Client.setReader, hpassing,
          Reader.calls]
        rfl
  case target =>
    rw [tokens_release_of_ne hb, hissue.target]
    rfl
  case frame =>
    intro p hp hpb
    rw [tokens_release_of_ne hp, hissue.frame p hpb]

/-- The place of a call that is answered, if it expects a reply. -/
def Call.ended (c : Call) : Place :=
  if c.msg.expectsReply then .answered else .finished

theorem issues_answer (s : Client) (c : Call) (reply : Message) :
    Issues s.tokens (s.answer c reply).tokens c.ended c := by
  unfold Call.ended
  by_cases hexpects : c.msg.expectsReply
  · simp only [Client.answer, hexpects, if_true]
    constructor
    · rfl
    · intro p hp
      cases p <;> first | rfl | exact absurd rfl hp
  · simp only [Client.answer, hexpects, if_false, Bool.false_eq_true]
    constructor
    · rfl
    · intro p hp
      cases p <;> first | rfl | exact absurd rfl hp

theorem issues_finished (s : Client) (c : Call) (why : Unanswered) :
    Issues s.tokens (s.note (.finished c why)).tokens .finished c := by
  constructor
  · rfl
  · intro p hp
    cases p <;> first | rfl | exact absurd rfl hp

theorem issues_hold (s : Client) (c : Call) :
    Issues s.tokens (s.hold c).tokens .held c := by
  constructor
  · simp only [Client.tokens, Client.hold, Client.setPortal]
    exact Multiset.coe_eq_coe.mpr (List.perm_append_singleton c s.portal.held)
  · intro p hp
    cases p <;> first | rfl | exact absurd rfl hp

theorem Thread.ne_place (t : Thread) :
    .held ≠ t.place ∧ .pending ≠ t.place ∧ .finished ≠ t.place := by
  cases t <;> simp [Thread.place]

theorem ended_ne_place (c : Call) (t : Thread) : c.ended ≠ t.place := by
  unfold Call.ended
  cases t <;> split <;> simp [Thread.place]

/-- The event of a step that ends no call. -/
theorem tokens_note (s : Client) {e : Event} (hanswered : e.answeredCall = none)
    (hfinished : e.finishedCall = none) (p : Place) : (s.note e).tokens p = s.tokens p :=
  tokens_congr s (s.note e) (fun _ => rfl) rfl rfl rfl
    ⟨[e], rfl, by simpa using ⟨hanswered, hfinished⟩⟩ p

end Moves

/-- A serving thread goes where it has the same calls. -/
theorem tokens_setServing {s s₁ : Client} {via : Via} {th : Serving}
    (hth : th.calls = (s.serving via).calls) (hserving : s₁.serving = s.serving)
    (hheld : s₁.portal.held = s.portal.held) (hpending : s₁.pending = s.pending)
    (hreader : s₁.reader = s.reader) (hlog : s₁.log = s.log) (p : Place) :
    (s₁.setServing via th).tokens p = s.tokens p := by
  refine tokens_congr s (s₁.setServing via th) ?_ hheld hpending (congrArg Reader.calls hreader) ⟨[], hlog, by simp⟩ p
  intro via'
  simp only [Client.setServing, hserving]
  split
  · rename_i hvia
    rw [hvia, hth]
  · rfl

/-- What a step does to the calls: they stay where they are, some go from one place to
another, or one comes from the client. -/
inductive Flow (s s' : Client) : Prop where
  | still (hcalls : s'.calls = s.calls) (h : ∀ p, s'.tokens p = s.tokens p)
  | goes (a b : Place) (m : Multiset Call) (hcalls : s'.calls = s.calls) (hne : a ≠ b)
      (h : Moves s.tokens s'.tokens a b m)
  | comes (b : Place) (c : Call) (hid : c.id = s.calls) (hcalls : s'.calls = s.calls + 1)
      (hread : ∀ d, s'.WasRead d ↔ d = c ∨ s.WasRead d) (h : Issues s.tokens s'.tokens b c)

theorem calls_goOn (s : Client) (t : Thread) (c : Call) (st : Stage) :
    (s.goOn t c st).calls = s.calls := by
  cases t <;> rfl

theorem calls_release (s : Client) (t : Thread) : (s.release t).calls = s.calls := by
  cases t <;> rfl

/-- The reading thread goes on with the same calls, and no call ends. -/
private theorem flow_reader {s s' : Client} (hcalls : s'.calls = s.calls)
    (hserving : s'.serving = s.serving) (hheld : s'.portal.held = s.portal.held)
    (hpending : s'.pending = s.pending) (hreader : s'.reader.calls = s.reader.calls)
    (hlog : ∃ es, s'.log = es ++ s.log ∧ ∀ e ∈ es, e.answeredCall = none ∧ e.finishedCall = none) :
    Flow s s' :=
  .still hcalls (tokens_congr s s' (fun via => by rw [hserving]) hheld hpending hreader hlog)

/-- A thread is at another stage with its call. -/
private theorem flow_goOn {s : Client} (s₁ : Client) {t : Thread} {c : Call} {st st' : Stage}
    (hat : s₁.At t c st) (hcalls : s₁.calls = s.calls) (hsame : ∀ p, s₁.tokens p = s.tokens p) :
    Flow s (s₁.goOn t c st') := by
  refine .still ?_ fun p => by rw [tokens_goOn hat, hsame p]
  rw [calls_goOn]
  exact hcalls

/-- A thread is done with a call that has come to another place. -/
private theorem flow_release {s s₁ : Client} {t : Thread} {c : Call} {st : Stage} {b : Place}
    (hat : s.At t c st) (hb : b ≠ t.place) (hcalls : s₁.calls = s.calls)
    (hissue : Issues s.tokens s₁.tokens b c) : Flow s (s₁.release t) := by
  refine .goes t.place b {c} ?_ hb.symm (moves_release hat hb hissue)
  rw [calls_release]
  exact hcalls

/-- A thread is done with a call that is answered. -/
private theorem flow_answer {s : Client} (s₁ : Client) {t : Thread} {c : Call} {st : Stage} (reply : Message)
    (hat : s.At t c st) (hcalls : s₁.calls = s.calls) (hsame : ∀ p, s₁.tokens p = s.tokens p) :
    Flow s ((s₁.answer c reply).release t) := by
  have hissue : Issues s.tokens (s₁.answer c reply).tokens c.ended c := by
    obtain ⟨htarget, hframe⟩ := issues_answer s₁ c reply
    exact ⟨by rw [htarget, hsame], fun p hp => by rw [hframe p hp, hsame]⟩
  exact flow_release hat (ended_ne_place c t) hcalls hissue

private theorem wasRead_append {s s' : Client} (es : List Event) (hlog : s'.log = es ++ s.log)
    {c : Call} (hes : ∀ d, .read d ∈ es ↔ d = c) (d : Call) :
    s'.WasRead d ↔ d = c ∨ s.WasRead d := by
  rw [Client.WasRead, hlog, List.mem_append, hes]
  rfl

theorem Reader.calls_of_quiet {r : Reader} (h : r.quiet) : r.calls = [] := by
  cases r <;> first | rfl | cases h

/-- The reading thread ends the call whose reply it has. -/
private theorem flow_relayed {s s' : Client} {p : Pending} {m : Message} {fds : List Fd} {b : Place}
    (hreader : s.reader = .relaying p m fds) (hcalls : s'.calls = s.calls) (hb : .reader ≠ b)
    (hafter : s'.reader.calls = []) (htarget : s'.tokens b = p.call ::ₘ s.tokens b)
    (hframe : ∀ q, q ≠ .reader → q ≠ b → s'.tokens q = s.tokens q) : Flow s s' := by
  refine .goes .reader b {p.call} hcalls hb ⟨?_, htarget, hframe⟩
  simp only [Client.tokens, hafter]
  rw [hreader]
  exact (Multiset.add_zero _).symm

/-- A call comes that is answered at once. -/
private theorem flow_readAnswered (s : Client) (c : Call) (reply : Message) (hid : c.id = s.calls) :
    Flow s ((Client.note { s with calls := s.calls + 1 } (.read c)).answer c reply) := by
  obtain ⟨e, hlog, he⟩ := log_answer (Client.note { s with calls := s.calls + 1 } (.read c)) c reply
  refine .comes c.ended c hid rfl (wasRead_append [e, .read c] hlog ?_) ?_
  · intro d
    rcases he with ⟨rfl, _⟩ | ⟨rfl, _⟩ <;> simp
  · have hsame : ∀ p, (Client.note { s with calls := s.calls + 1 } (.read c)).tokens p =
        s.tokens p := tokens_note { s with calls := s.calls + 1 } rfl rfl
    obtain ⟨htarget, hframe⟩ :=
      issues_answer (Client.note { s with calls := s.calls + 1 } (.read c)) c reply
    exact ⟨by rw [htarget, hsame], fun p hp => by rw [hframe p hp, hsame]⟩

/-- A call comes, and the thread that read it serves it. -/
private theorem flow_readCall {s : Client} {c : Call} {st : Stage} (hidle : s.serving c.via = .idle)
    (hid : c.id = s.calls) :
    Flow s ((Client.note { s with calls := s.calls + 1 } (.read c)).setServing c.via (.forwarding c st)) := by
  refine .comes (.serving c.via) c hid rfl (wasRead_append [.read c] rfl (by simp)) ?_
  constructor
  · simp [Client.tokens, Client.setServing, hidle, Serving.calls]
  · intro p hp
    cases p with
    | serving via =>
        have hvia : via ≠ c.via := fun h => hp (by rw [h])
        simp [Client.tokens, Client.setServing, if_neg hvia, Client.note]
    | _ => rfl

/-- What still waits when the host connection ends goes with it, or is told so. -/
private theorem flow_fails {s : Client} {waiting : List Pending} (f : Pending → Event) {b : Place}
    (hreader : s.reader = .failing waiting)
    (hf : b = .finished ∧ (∀ p, (f p).finishedCall = some p.call ∧ (f p).answeredCall = none) ∨
      b = .answered ∧ ∀ p, (f p).answeredCall = some p.call ∧ (f p).finishedCall = none) :
    Flow s (Client.setReader { s with log := waiting.map f ++ s.log } (.endRequests .finish)) := by
  have hnone : ∀ g : Event → Option Call, (∀ p, g (f p) = none) →
      (waiting.map f).filterMap g = [] := by
    intro g hg
    rw [List.filterMap_eq_nil_iff]
    intro e he
    obtain ⟨p, _, rfl⟩ := List.mem_map.mp he
    exact hg p
  have hsome : ∀ g : Event → Option Call, (∀ p, g (f p) = some p.call) →
      (waiting.map f).filterMap g = waiting.map Pending.call := by
    intro g hg
    rw [List.filterMap_map, ← List.filterMap_eq_map]
    exact List.filterMap_congr fun p _ => hg p
  have hbefore : s.reader.calls = waiting.map Pending.call := by rw [hreader]; rfl
  refine .goes .reader b s.reader.calls rfl (by rcases hf with ⟨rfl, _⟩ | ⟨rfl, _⟩ <;> simp) ?_
  constructor
  · exact (Multiset.add_zero _).symm
  · rw [hbefore]
    rcases hf with ⟨rfl, hf⟩ | ⟨rfl, hf⟩
    · simp [Client.tokens, Client.setReader, hsome _ fun p => (hf p).1]
    · simp [Client.tokens, Client.setReader, hsome _ fun p => (hf p).1]
  · intro p hreader' hb
    rcases hf with ⟨rfl, hf⟩ | ⟨rfl, hf⟩
    · cases p with
      | answered => simp [Client.tokens, Client.setReader, hnone _ fun p => (hf p).2]
      | _ => first | rfl | contradiction
    · cases p with
      | finished => simp [Client.tokens, Client.setReader, hnone _ fun p => (hf p).2]
      | _ => first | rfl | contradiction

/-- Every step of the client is such a flow. -/
theorem effect_flow {cfg : Setup} {s s' : Client} {a : Action} (heff : Effect cfg s a s') :
    Flow s s' := by
  cases heff with
  | readAnswered c reply hidle hid hvia hreply => exact flow_readAnswered s c reply hid
  | readCall c hidle hid hvia =>
      subst hvia
      exact flow_readCall hidle hid
  | depart | leaveUnmapped => exact .still rfl fun p => by cases p <;> rfl
  | leave hidle =>
      exact .still rfl (tokens_setServing (by rw [hidle]; rfl) rfl rfl rfl rfl rfl)
  | goneSet hleaving =>
      exact .still rfl (tokens_setServing (by rw [hleaving]; rfl) rfl rfl rfl rfl rfl)
  | left hleft =>
      obtain ⟨shut, hshut, _⟩ := closeIfDone_eq s
      rw [hshut]
      exact .still rfl (tokens_setServing (by rw [hleft]; rfl) rfl rfl rfl rfl rfl)
  -- The thread that has the call keeps it.
  | found hat | notToPortal hat _ | noIdentity hat _ _ _ | sameOwner hat _ _ _ _
  | identified hat => exact flow_goOn s hat rfl fun _ => rfl
  | allowed args file hat => exact flow_goOn (s.note _) hat rfl (tokens_note s rfl rfl)
  | unlisted hat =>
      obtain ⟨openRequests, hunlist⟩ := unlist_eq s _ _
      rw [hunlist]
      exact flow_goOn { s with openRequests := openRequests } hat rfl
        fun p => by cases p <;> rfl
  -- The thread is done with the call.
  | elsewhere hat =>
      exact flow_release hat (Thread.ne_place _).2.2 rfl (issues_finished s _ _)
  | unanswerable text hat => exact flow_answer s _ hat rfl fun _ => rfl
  | registerFailed text hat | sendFailed text hat =>
      exact flow_answer s.tick _ hat rfl fun p => by cases p <;> rfl
  | answeredByPolicy reply hat hreply =>
      exact flow_answer (s.note _) _ hat rfl (tokens_note s rfl rfl)
  -- The call goes behind those that wait for the reply to `Register`.
  | heldBehind hat _ _ => exact flow_release hat (Thread.ne_place _).1 rfl (issues_hold s _)
  | registerHeld app hat _ _ _ _ _ =>
      have hsame : ∀ p, ((s.tick.setPortal { s.portal with registering := some s.serial }).note
          (.registerSent s.serial (register app))).tokens p = s.tokens p :=
        tokens_congr s _ (fun _ => rfl) rfl rfl rfl ⟨[_], rfl, by simp [Event.answeredCall,
          Event.finishedCall]⟩
      exact flow_release hat (Thread.ne_place _).1 rfl ((issues_hold _ _).after hsame)
  | registerAgain app hat _ =>
      have hpassing : s.reader = _ := hat
      refine flow_reader rfl rfl rfl rfl ?_ ⟨[_], rfl, by simp [Event.answeredCall,
        Event.finishedCall]⟩
      rw [hpassing]
      rfl
  -- The call waits for the host's reply.
  | sent p hat hopen hexpects hcall hserial hvia =>
      refine flow_release hat (Thread.ne_place _).2.1 rfl ?_
      constructor
      · rw [← hcall]
        rfl
      · intro p hp
        cases p <;> first | rfl | exact absurd rfl hp
  | sentNoReply hat _ =>
      refine flow_release hat (Thread.ne_place _).2.2 rfl ((issues_finished _ _ _).after ?_)
      exact tokens_note s.tick rfl rfl
  -- From here on it is the reading thread that moves calls.
  | takesHeld hreader =>
      refine .goes .held .reader s.portal.held rfl (by simp) ?_
      constructor
      · exact (Multiset.add_zero _).symm
      · simp only [Client.tokens, hreader, Reader.calls]
        exact (Multiset.add_zero _).symm
      · intro p hheld hreader'
        cases p <;> first | rfl | contradiction
  | handedBack c rest hreader =>
      refine .goes .reader .held (c :: rest : List Call) rfl (by simp) ?_
      constructor
      · simp only [Client.tokens, hreader]
        exact (Multiset.add_zero _).symm
      · exact (Multiset.coe_add _ _).symm
      · intro p hreader' hheld
        cases p <;> first | rfl | contradiction
  | takesPending n p files requests hreader hserial hpending =>
      refine .goes .pending .reader {p.call} rfl (by simp) ?_
      constructor
      · exact Multiset.coe_eq_coe.mpr ((pending_eraseP hpending).map _).symm
      · simp only [Client.tokens, hreader, Reader.calls]
        exact (Multiset.add_zero _).symm
      · intro p hpending' hreader'
        cases p <;> first | rfl | contradiction
  | replyToGone hreader _ =>
      refine flow_relayed (b := .finished) hreader rfl (by simp) rfl rfl ?_
      intro p hreader' hfinished
      cases p <;> first | rfl | contradiction
  | replyRelayed hreader =>
      refine flow_relayed (b := .answered) hreader rfl (by simp) rfl rfl ?_
      intro p hreader' hanswered
      cases p <;> first | rfl | contradiction
  | drainsPending hreader =>
      refine .goes .pending .reader (s.pending.map fun e => e.2.call) rfl (by simp) ?_
      constructor
      · exact (Multiset.add_zero _).symm
      · simp only [Client.tokens, hreader, Reader.calls, Client.setReader, List.map_map]
        exact (Multiset.add_zero _).symm
      · intro p hpending hreader'
        cases p <;> first | rfl | contradiction
  -- What waits when the connection ends goes with the client, or is told so.
  | failsToGone hreader _ => exact flow_fails _ hreader (Or.inl ⟨rfl, fun _ => ⟨rfl, rfl⟩⟩)
  | fails hreader => exact flow_fails _ hreader (Or.inr ⟨rfl, fun _ => ⟨rfl, rfl⟩⟩)
  | quiet hquiet =>
      obtain ⟨es, hlog, hes⟩ := hquiet.log
      refine flow_reader hquiet.calls hquiet.serving (congrArg PortalState.held hquiet.portal)
        hquiet.pending ?_ ⟨es, hlog, ?_⟩
      · rw [Reader.calls_of_quiet hquiet.before,
          Reader.calls_of_quiet (Reader.quiet_of_settled hquiet.after)]
      · intro e he
        have hclient := hes e he
        cases e <;> first | exact ⟨rfl, rfl⟩ | cases hclient
  -- The calls stay where they are.
  | received hrecv _ | receivedUndecodable _ hrecv _ _ | receivedUnknown hrecv _ _ =>
      exact flow_reader rfl rfl rfl rfl (by rw [hrecv]; rfl)
        ⟨[_], rfl, by simp [Event.answeredCall, Event.finishedCall]⟩
  | close hrecv => exact flow_reader rfl rfl rfl rfl (by rw [hrecv]; rfl) ⟨[], rfl, by simp⟩
  | registerAccepted hreader _ | registerRefused hreader _ =>
      exact flow_reader rfl rfl rfl rfl (by rw [hreader]; rfl)
        ⟨[_], rfl, by simp [Event.answeredCall, Event.finishedCall]⟩
  | registerReply hreader _ _ _ _ | otherReply hreader _ _ | drained hreader _ | passedOn hreader
  | passesNext _ _ hreader | unknownReply hreader _ | unmaps hreader | shutsDown hreader =>
      exact flow_reader rfl rfl rfl rfl (by rw [hreader]; rfl) ⟨[], rfl, by simp⟩

/-- Every call that was read is in one place, once; its `id` tells it apart. -/
structure Accounted (s : Client) : Prop where
  ledger : Ledger s.WasRead s.tokens
  ids : ∀ c, s.WasRead c → c.id < s.calls

theorem accounted_effect {cfg : Setup} {s s' : Client} {a : Action} (h : Accounted s)
    (heff : Effect cfg s a s') : Accounted s' := by
  obtain ⟨es, hlog, hes⟩ := effect_log heff
  -- Only a step that counts a call has read one.
  have hreads : s'.calls = s.calls → ∀ c, s'.WasRead c ↔ s.WasRead c := by
    intro hcalls c
    rw [Client.WasRead, hlog, List.mem_append]
    refine ⟨fun hread => hread.resolve_left fun hread => ?_, Or.inr⟩
    have hcounted := (hes _ hread).2
    omega
  cases effect_flow heff with
  | still hcalls hsame =>
      refine ⟨h.ledger.congr (hreads hcalls) hsame, fun c hc => ?_⟩
      rw [hcalls]
      exact h.ids c ((hreads hcalls c).mp hc)
  | goes a b m hcalls hne hmoves =>
      refine ⟨h.ledger.moves (hreads hcalls) hne hmoves, fun c hc => ?_⟩
      rw [hcalls]
      exact h.ids c ((hreads hcalls c).mp hc)
  | comes b c hid hcalls hread hissue =>
      have hnew : ¬ s.WasRead c := fun hc => by
        have hlt := h.ids c hc
        omega
      refine ⟨h.ledger.issues hread hnew hissue, fun d hd => ?_⟩
      rcases (hread d).mp hd with rfl | hd
      · omega
      · have hlt := h.ids d hd
        omega

theorem accounted_run {cfg : Setup} {s s' : Client} {as : List Action} (h : Accounted s)
    (hrun : run (step cfg) s as = some s') : Accounted s' :=
  run_invariant (fun _ _ _ hinv hstep => accounted_effect hinv (step_effect hstep)) h hrun

/-! ## Section 3: Calls That Wait for the Host -/

/-- A pending call is as it was sent, and expects a reply. -/
def Pending.Keeps (p : Pending) : Prop :=
  p.call.msg.expectsReply ∧ p.callerSerial = p.call.msg.serial ∧ p.via = p.call.via

/-- The serial of a reply that was not looked up among the pending calls yet. -/
def Reader.unmatched : Reader → Option Nat
  | received m _ => if isReply m then serialOf m else none
  | registered m => serialOf m
  | replying m _ => serialOf m
  | _ => none

theorem Reader.handling_of_unmatched {r : Reader} {n : Nat} (h : r.unmatched = some n) :
    r.handling = some n := by
  cases r <;> first | exact h | cases h

/-- The reply that is relayed. -/
def Reader.reply : Reader → Option Message
  | replying m _ | relaying _ m _ => some m
  | _ => none

theorem Reader.shut_of_emptied {r : Reader} (h : r.emptied) : r.shut := by
  cases r with
  | endRequests after => cases after <;> first | rfl | cases h
  | telling paths after => cases after <;> first | rfl | cases h
  | _ => first | rfl | cases h

/-- At work on something that is no reply, before the host connection was shut
down. -/
def Reader.bare : Reader → Bool
  | recv | drain | next _ | passing _ _ _ | handBack _ _ | signal _ _ | deliver _ _
  | endRequests .closeIfDone | telling _ .closeIfDone | closeIfDone | closing | shutting => true
  | received m _ => !isReply m
  | _ => false

/-- On its way through something that is no reply, the reading thread has none. -/
theorem Reader.of_quiet {r : Reader} (h : r.quiet) :
    r.waiting = [] ∧ r.unmatched = none ∧ r.reply = none ∧ ∀ m, r ≠ .registered m := by
  cases r with
  | received m fds =>
      have hreply : isReply m = false := by simpa [Reader.quiet] using h
      exact ⟨rfl, by simp [Reader.unmatched, hreply], rfl, by simp⟩
  | recv | signal m fds | deliver m fds | endRequests after | telling paths after | closeIfDone
  | done => exact ⟨rfl, rfl, rfl, by simp⟩
  | _ => cases h

structure Waits (s : Client) : Prop where
  keeps : ∀ n p, (n, p) ∈ s.pending → p.Keeps ∧ n < s.serial
  waiting : ∀ p ∈ s.reader.waiting, p.Keeps
  keys : (s.pending.map Prod.fst).Nodup
  register : ∀ n, s.portal.registering = some n → ∀ p, (n, p) ∉ s.pending
  registered : ∀ m, s.reader = .registered m → serialOf m = s.portal.registering
  /-- The reply to a pending call is on its way to it. -/
  unreplied : ∀ n p, (n, p) ∈ s.pending → Replied s.log n → s.reader.unmatched = some n
  reply : ∀ m, s.reader.reply = some m → isReply m
  /-- Where a call is that was sent to the host and expects a reply. -/
  sent : ∀ c identified file n out, .sent c identified file n out ∈ s.log → c.msg.expectsReply →
    n < s.serial ∧ ((∃ p, (n, p) ∈ s.pending ∧ p.call = c) ∨
      (∃ p ∈ s.reader.waiting, p.call = c ∧ (s.reader.handling = some n ∨ ¬ Replied s.log n)) ∨
      s.Answered c ∨ .finished c .gone ∈ s.log)
  shut : s.reader.shut → s.shut
  emptied : s.reader.emptied → s.pending = []

/-- The events that `Waits` looks at: what the host sent, and what was sent to it. -/
def Event.mails : Event → Bool
  | received _ => true
  | sent c _ _ _ _ => c.msg.expectsReply
  | _ => false

/-- A step that leaves the pending calls alone. -/
theorem Waits.update {s s' : Client} (h : Waits s) (hpending : s'.pending = s.pending)
    (hserial : s.serial ≤ s'.serial)
    (hregistering : ∀ n, s'.portal.registering = some n →
      s.portal.registering = some n ∨ n = s.serial)
    (hlog : ∃ es, s'.log = es ++ s.log ∧ ∀ e ∈ es, e.mails = false)
    (hwaiting : s'.reader.waiting = s.reader.waiting)
    (hhandling : s.reader.waiting ≠ [] → s'.reader.handling = s.reader.handling)
    (hunmatched : ∀ n p, (n, p) ∈ s.pending → s.reader.unmatched = some n →
      s'.reader.unmatched = some n)
    (hregistered : ∀ m, s'.reader = .registered m → serialOf m = s'.portal.registering)
    (hreply : ∀ m, s'.reader.reply = some m → isReply m) (hshut : s'.reader.shut → s'.shut)
    (hemptied : s'.reader.emptied → s.reader.emptied) : Waits s' := by
  obtain ⟨es, hlog, hes⟩ := hlog
  have hreplied : ∀ n, Replied s'.log n → Replied s.log n := by
    rintro n ⟨a, ha, hanswers⟩
    rw [hlog] at ha
    rcases List.mem_append.mp ha with ha | ha
    · exact absurd (hes _ ha) (by simp [Event.mails])
    · exact ⟨a, ha, hanswers⟩
  have hmono : ∀ e ∈ s.log, e ∈ s'.log := fun e he => hlog ▸ List.mem_append_right _ he
  constructor
  case keeps =>
    intro n p hp
    rw [hpending] at hp
    exact ⟨(h.keeps n p hp).1, Nat.lt_of_lt_of_le (h.keeps n p hp).2 hserial⟩
  case waiting =>
    rw [hwaiting]
    exact h.waiting
  case keys =>
    rw [hpending]
    exact h.keys
  case register =>
    intro n hn p hp
    rw [hpending] at hp
    rcases hregistering n hn with hn | rfl
    · exact h.register n hn p hp
    -- A new registration has a serial that no pending call has.
    · exact absurd (h.keeps _ p hp).2 (Nat.lt_irrefl _)
  case registered =>
    exact hregistered
  case unreplied =>
    intro n p hp hn
    rw [hpending] at hp
    exact hunmatched n p hp (h.unreplied n p hp (hreplied n hn))
  case reply =>
    exact hreply
  case sent =>
    intro c identified file n out hsent hexpects
    rw [hlog] at hsent
    rcases List.mem_append.mp hsent with hsent | hsent
    · have hmails := hes _ hsent
      rw [Event.mails, hexpects] at hmails
      cases hmails
    -- Nothing is sent here: it was sent before.
    · obtain ⟨hlt, hwhere⟩ := h.sent c identified file n out hsent hexpects
      refine ⟨Nat.lt_of_lt_of_le hlt hserial, ?_⟩
      rcases hwhere with ⟨p, hp, hc⟩ | ⟨p, hp, hc, hn⟩ | ⟨via, reply, hanswered⟩ | hgone
      · exact Or.inl ⟨p, hpending ▸ hp, hc⟩
      · refine Or.inr (Or.inl ⟨p, hwaiting ▸ hp, hc, ?_⟩)
        rw [hhandling (List.ne_nil_of_mem hp)]
        exact hn.imp_right fun hn hn' => hn (hreplied n hn')
      · exact Or.inr (Or.inr (Or.inl ⟨via, reply, hmono _ hanswered⟩))
      · exact Or.inr (Or.inr (Or.inr (hmono _ hgone)))
  case shut =>
    exact hshut
  case emptied =>
    rw [hpending]
    exact fun hr => h.emptied (hemptied hr)

/-- The reading thread stays where it is. -/
private theorem Waits.stay {s s' : Client} (h : Waits s) (hpending : s'.pending = s.pending)
    (hserial : s.serial ≤ s'.serial)
    (hregistering : s'.portal.registering = s.portal.registering)
    (hlog : ∃ es, s'.log = es ++ s.log ∧ ∀ e ∈ es, e.mails = false)
    (hreader : s'.reader = s.reader) (hshut : s.shut → s'.shut) : Waits s' := by
  refine h.update hpending hserial (fun n hn => Or.inl (hregistering ▸ hn)) hlog (by rw [hreader])
    (fun _ => by rw [hreader]) (fun n p _ hn => by rw [hreader]; exact hn) ?_ ?_ ?_ ?_
  · rw [hreader, hregistering]
    exact h.registered
  · rw [hreader]
    exact h.reply
  · rw [hreader]
    exact fun hr => hshut (h.shut hr)
  · rw [hreader]
    exact id

/-- The reading thread goes from one piece of work to another that is no reply. -/
private theorem Waits.work {s s' : Client} (h : Waits s) (hpending : s'.pending = s.pending)
    (hserial : s.serial ≤ s'.serial)
    (hregistering : ∀ n, s'.portal.registering = some n →
      s.portal.registering = some n ∨ n = s.serial)
    (hlog : ∃ es, s'.log = es ++ s.log ∧ ∀ e ∈ es, e.mails = false)
    (hbefore : s.reader.bare) (hafter : s'.reader.bare) : Waits s' := by
  have hwaiting : ∀ r : Reader, r.bare → r.waiting = [] := by
    intro r hr
    cases r <;> first | rfl | cases hr
  have hother : ∀ r : Reader, r.bare → r.reply = none ∧ r.unmatched = none ∧ r.shut = false ∧
      r.emptied = false ∧ ∀ m, r ≠ .registered m := by
    intro r hr
    cases r with
    | received m fds =>
        have hreply : isReply m = false := by simpa [Reader.bare] using hr
        exact ⟨rfl, by simp [Reader.unmatched, hreply], rfl, rfl, by simp⟩
    | endRequests after => cases after <;> first | exact ⟨rfl, rfl, rfl, rfl, by simp⟩ | cases hr
    | telling paths after => cases after <;> first | exact ⟨rfl, rfl, rfl, rfl, by simp⟩ | cases hr
    | _ => first | exact ⟨rfl, rfl, rfl, rfl, by simp⟩ | cases hr
  obtain ⟨hreply, _, hshut, hemptied, hregistered⟩ := hother _ hafter
  obtain ⟨_, hunmatched, _⟩ := hother _ hbefore
  refine h.update hpending hserial hregistering hlog ?_ ?_ ?_ ?_ ?_ ?_ ?_
  · rw [hwaiting _ hafter, hwaiting _ hbefore]
  · exact fun hne => absurd (hwaiting _ hbefore) hne
  · exact fun n p _ hn => absurd (hunmatched.symm.trans hn) (by simp)
  · exact fun m hm => absurd hm (hregistered m)
  · exact fun m hm => absurd (hreply.symm.trans hm) (by simp)
  · exact fun hr => absurd (hshut.symm.trans hr) (by simp)
  · exact fun hr => absurd (hemptied.symm.trans hr) (by simp)

private theorem Waits.goOn {s : Client} {t : Thread} {c : Call} {st st' : Stage} (h : Waits s)
    (hat : s.At t c st) : Waits (s.goOn t c st') := by
  cases t with
  | serving via => exact h.stay rfl (Nat.le_refl _) rfl ⟨[], rfl, by simp⟩ rfl id
  | reader rest =>
      have hpassing : s.reader = .passing c st rest := hat
      exact h.work rfl (Nat.le_refl _) (fun _ => Or.inl) ⟨[], rfl, by simp⟩ (by rw [hpassing]; rfl)
        rfl

private theorem Waits.release {s : Client} {t : Thread} {c : Call} {st : Stage} (h : Waits s)
    (hat : s.At t c st) : Waits (s.release t) := by
  cases t with
  | serving via => exact h.stay rfl (Nat.le_refl _) rfl ⟨[], rfl, by simp⟩ rfl id
  | reader rest =>
      have hpassing : s.reader = .passing c st rest := hat
      exact h.work rfl (Nat.le_refl _) (fun _ => Or.inl) ⟨[], rfl, by simp⟩ (by rw [hpassing]; rfl)
        rfl

private theorem Waits.note {s : Client} {e : Event} (h : Waits s) (he : e.mails = false) :
    Waits (s.note e) :=
  h.stay rfl (Nat.le_refl _) rfl ⟨[e], rfl, by simpa using he⟩ rfl id

private theorem Waits.answer {s : Client} (h : Waits s) (c : Call) (reply : Message) :
    Waits (s.answer c reply) := by
  refine h.note ?_
  split <;> rfl

private theorem Waits.tick {s : Client} (h : Waits s) : Waits s.tick :=
  h.stay rfl (Nat.le_succ _) rfl ⟨[], rfl, by simp⟩ rfl id

/-- The reading thread reads a reply. -/
private theorem Waits.receives {s : Client} {a : Arrival} {r : Reader} (h : Waits s)
    (hrecv : s.reader = .recv) (hwaiting : r.waiting = [])
    (hmatch : ∀ n, isReply a.header → serialOf a.header = some n → r.unmatched = some n)
    (hregistered : ∀ m, r ≠ .registered m) (hreply : ∀ m, r.reply = some m → isReply m)
    (hshut : r.shut = false) (hemptied : r.emptied = false) :
    Waits ((s.note (.received a)).setReader r) := by
  -- A pending call that was replied to is in the reading thread's hands, which has none.
  have hnew : ∀ n p, (n, p) ∈ s.pending → ¬ Replied s.log n := by
    intro n p hp hn
    have hunmatched := h.unreplied n p hp hn
    rw [hrecv] at hunmatched
    cases hunmatched
  refine {
    keeps := h.keeps, waiting := ?waiting, keys := h.keys, register := h.register,
    registered := ?registered, unreplied := ?unreplied, reply := hreply, sent := ?sent,
    shut := ?shut, emptied := ?emptied }
  case waiting =>
    intro p hp
    have hp' : p ∈ r.waiting := hp
    rw [hwaiting] at hp'
    cases hp'
  case registered =>
    exact fun m hm => absurd hm (hregistered m)
  case unreplied =>
    intro n p hp hn
    rcases replied_received.mp hn with ⟨hr, hserial⟩ | hn
    · exact hmatch n hr hserial
    · exact absurd hn (hnew n p hp)
  case sent =>
    intro c identified file n out hsent hexpects
    have hsent' : Event.sent c identified file n out ∈ s.log := by
      simpa [Client.setReader, Client.note] using hsent
    obtain ⟨hlt, hwhere⟩ := h.sent c identified file n out hsent' hexpects
    refine ⟨hlt, ?_⟩
    rcases hwhere with hpending | ⟨p, hp, _⟩ | ⟨via, reply, hanswered⟩ | hgone
    · exact Or.inl hpending
    · rw [hrecv] at hp
      cases hp
    · exact Or.inr (Or.inr (Or.inl ⟨via, reply, List.mem_cons_of_mem _ hanswered⟩))
    · exact Or.inr (Or.inr (Or.inr (List.mem_cons_of_mem _ hgone)))
  case shut =>
    exact fun hr => absurd (hshut.symm.trans hr) (by simp)
  case emptied =>
    exact fun hr => absurd (hemptied.symm.trans hr) (by simp)

/-- A call is pending by the time its send returns. -/
private theorem Waits.sends {s : Client} {c : Call} {identified : Bool}
    {file : Option FileRequest} {out : Message} {p : Pending} (h : Waits s)
    (hregistration : Registration s) (hopen : s.shut = false) (hp : p.Keeps) (hcall : p.call = c) :
    Waits { s.tick.note (.sent c identified file s.serial out) with
      pending := (s.serial, p) :: s.pending } := by
  have hserial : s.serial < s.tick.serial := Nat.lt_succ_self _
  constructor
  case keeps =>
    intro n q hq
    rcases List.mem_cons.mp hq with heq | hq
    · cases heq
      exact ⟨hp, hserial⟩
    · exact ⟨(h.keeps n q hq).1, Nat.lt_trans (h.keeps n q hq).2 hserial⟩
  case waiting =>
    exact h.waiting
  case keys =>
    -- Serials only grow: the new one is no other call's.
    refine List.nodup_cons.mpr ⟨fun hmem => ?_, h.keys⟩
    obtain ⟨⟨n, q⟩, hq, hn⟩ := List.mem_map.mp hmem
    cases hn
    exact absurd (h.keeps _ q hq).2 (Nat.lt_irrefl _)
  case register =>
    intro n hn q hq
    rcases List.mem_cons.mp hq with heq | hq
    · cases heq
      exact absurd (hregistration.fresh _ hn) (Nat.lt_irrefl _)
    · exact h.register n hn q hq
  case registered =>
    exact h.registered
  case unreplied =>
    intro n q hq hreplied
    have hreplied' : Replied s.log n := replied_note (by simp) n hreplied
    rcases List.mem_cons.mp hq with heq | hq
    · cases heq
      exact absurd (hregistration.replied _ hreplied') (Nat.lt_irrefl _)
    · exact h.unreplied n q hq hreplied'
  case reply =>
    exact h.reply
  case sent =>
    intro c' identified' file' n out' hsent hexpects
    rcases List.mem_cons.mp hsent with heq | hsent
    · cases heq
      exact ⟨hserial, Or.inl ⟨p, List.mem_cons_self, hcall⟩⟩
    · obtain ⟨hlt, hwhere⟩ := h.sent c' identified' file' n out' hsent hexpects
      refine ⟨Nat.lt_trans hlt hserial, ?_⟩
      rcases hwhere with ⟨q, hq, hc⟩ | ⟨q, hq, hc, hn⟩ | ⟨via, reply, hanswered⟩ | hgone
      · exact Or.inl ⟨q, List.mem_cons_of_mem _ hq, hc⟩
      · refine Or.inr (Or.inl ⟨q, hq, hc, hn.imp_right fun hn hreplied => hn ?_⟩)
        exact replied_note (by simp) n hreplied
      · exact Or.inr (Or.inr (Or.inl ⟨via, reply, List.mem_cons_of_mem _ hanswered⟩))
      · exact Or.inr (Or.inr (Or.inr (List.mem_cons_of_mem _ hgone)))
  case shut =>
    exact h.shut
  case emptied =>
    intro hr
    -- The calls are given up only once the connection is shut down, and it is open.
    have hclosed := h.shut (Reader.shut_of_emptied hr)
    rw [hopen] at hclosed
    cases hclosed

/-- A reply is matched with the pending call it answers. -/
private theorem Waits.takes {s : Client} {m : Message} {fds : List Fd} {n : Nat} {p : Pending}
    {files : List (String × FileRequest)} {requests : List String} (h : Waits s)
    (hreader : s.reader = .replying m fds) (hserial : serialOf m = some n)
    (hpending : s.pending.find? (fun e => e.1 == n) = some (n, p)) :
    Waits (Client.setReader
      { s with pending := s.pending.eraseP (fun e => e.1 == n),
               fileRequests := files, openRequests := requests } (.relaying p m fds)) := by
  have hperm := pending_eraseP hpending
  have hold : ∀ e ∈ s.pending.eraseP (fun e => e.1 == n), e ∈ s.pending :=
    fun e he => hperm.mem_iff.mp (List.mem_cons_of_mem _ he)
  -- The serials are different, so no other pending call has this one.
  have hkeys := (hperm.map Prod.fst).nodup_iff.mpr h.keys
  rw [List.map_cons, List.nodup_cons] at hkeys
  have hother : ∀ q, (n, q) ∉ s.pending.eraseP (fun e => e.1 == n) :=
    fun q hq => hkeys.1 (List.mem_map.mpr ⟨_, hq, rfl⟩)
  have hkept := hperm.mem_iff.mp List.mem_cons_self
  refine {
    keeps := fun k q hq => h.keeps k q (hold _ hq), waiting := ?waiting, keys := hkeys.2,
    register := fun k hk q hq => h.register k hk q (hold _ hq),
    registered := (fun m' hm => by cases hm), unreplied := ?unreplied, reply := ?reply,
    sent := ?sent, shut := (fun hr => by cases hr), emptied := (fun hr => by cases hr) }
  case waiting =>
    intro q hq
    rw [List.mem_singleton.mp hq]
    exact (h.keeps n p hkept).1
  case unreplied =>
    intro k q hq hk
    have hunmatched := h.unreplied k q (hold _ hq) hk
    rw [hreader] at hunmatched
    cases hserial.symm.trans hunmatched
    exact absurd hq (hother q)
  case reply =>
    intro m' hm
    exact h.reply m' (by rw [hreader]; exact hm)
  case sent =>
    intro c identified file k out hsent hexpects
    obtain ⟨hlt, hwhere⟩ := h.sent c identified file k out hsent hexpects
    refine ⟨hlt, ?_⟩
    rcases hwhere with ⟨q, hq, hc⟩ | ⟨q, hq, _⟩ | hended
    · rcases List.mem_cons.mp (hperm.mem_iff.mpr hq) with heq | hq
      · cases heq
        exact Or.inr (Or.inl ⟨p, List.mem_singleton_self _, hc, Or.inl hserial⟩)
      · exact Or.inl ⟨q, hq, hc⟩
    · rw [hreader] at hq
      cases hq
    · exact Or.inr (Or.inr hended)

/-- The pending calls are taken when the host connection has ended. -/
private theorem Waits.drains {s : Client} (h : Waits s) (hreader : s.reader = .failPending) :
    Waits (Client.setReader { s with pending := [] } (.failing (s.pending.map Prod.snd))) := by
  refine ⟨(fun n p hp => by cases hp), ?_, List.nodup_nil, (fun n _ p hp => by cases hp),
    (fun m hm => by cases hm), (fun n p hp => by cases hp), (fun m hm => by cases hm), ?_,
    fun _ => h.shut (by rw [hreader]; rfl), fun _ => rfl⟩
  · intro p hp
    obtain ⟨⟨n, q⟩, hq, rfl⟩ := List.mem_map.mp hp
    exact (h.keeps n q hq).1
  · intro c identified file n out hsent hexpects
    obtain ⟨hlt, hwhere⟩ := h.sent c identified file n out hsent hexpects
    refine ⟨hlt, ?_⟩
    rcases hwhere with ⟨p, hp, hc⟩ | ⟨p, hp, _⟩ | hended
    · refine Or.inr (Or.inl ⟨p, List.mem_map.mpr ⟨_, hp, rfl⟩, hc, Or.inr fun hn => ?_⟩)
      have hunmatched := h.unreplied n p hp hn
      rw [hreader] at hunmatched
      cases hunmatched
    · rw [hreader] at hp
      cases hp
    · exact Or.inr (Or.inr hended)

/-- The calls that the reading thread took from the pending ones are answered, or
given up. -/
private theorem Waits.ends {s s' : Client} (h : Waits s) (es : List Event)
    (hpending : s'.pending = s.pending) (hserial : s'.serial = s.serial)
    (hportal : s'.portal = s.portal) (hlog : s'.log = es ++ s.log)
    (hes : ∀ e ∈ es, e.mails = false)
    (hended : ∀ p ∈ s.reader.waiting,
      (∃ via reply, .answered p.call via reply ∈ es) ∨ .finished p.call .gone ∈ es)
    (hunmatched : s.reader.unmatched = none) (hafter : s'.reader.settled)
    (hshut : s'.reader.shut → s'.shut) (hemptied : s'.reader.emptied → s.reader.emptied) :
    Waits s' := by
  obtain ⟨hwaiting, _, hreply, hregistered⟩ := Reader.of_quiet (Reader.quiet_of_settled hafter)
  have hmono : ∀ e ∈ s.log, e ∈ s'.log := fun e he => hlog ▸ List.mem_append_right _ he
  have hnew : ∀ e ∈ es, e ∈ s'.log := fun e he => hlog ▸ List.mem_append_left _ he
  refine {
    keeps := by rw [hpending, hserial]; exact h.keeps, waiting := ?waiting,
    keys := by rw [hpending]; exact h.keys, register := by rw [hpending, hportal]; exact h.register,
    registered := fun m hm => absurd hm (hregistered m), unreplied := ?unreplied,
    reply := fun m hm => absurd (hreply.symm.trans hm) (by simp), sent := ?sent, shut := hshut,
    emptied := ?emptied }
  case waiting =>
    rw [hwaiting]
    exact fun p hp => by cases hp
  case unreplied =>
    intro n p hp hn
    rw [hpending] at hp
    have hn' : Replied s.log n := by
      obtain ⟨a, ha, hanswers⟩ := hn
      rw [hlog] at ha
      rcases List.mem_append.mp ha with ha | ha
      · exact absurd (hes _ ha) (by simp [Event.mails])
      · exact ⟨a, ha, hanswers⟩
    exact absurd (hunmatched.symm.trans (h.unreplied n p hp hn')) (by simp)
  case sent =>
    intro c identified file n out hsent hexpects
    rw [hlog] at hsent
    rcases List.mem_append.mp hsent with hsent | hsent
    · have hmails := hes _ hsent
      rw [Event.mails, hexpects] at hmails
      cases hmails
    -- A call that was in the reading thread's hands ends here.
    · obtain ⟨hlt, hwhere⟩ := h.sent c identified file n out hsent hexpects
      refine ⟨by rw [hserial]; exact hlt, ?_⟩
      rcases hwhere with ⟨p, hp, hc⟩ | ⟨p, hp, rfl, _⟩ | ⟨via, reply, hanswered⟩ | hgone
      · exact Or.inl ⟨p, hpending ▸ hp, hc⟩
      · rcases hended p hp with ⟨via, reply, hanswered⟩ | hgone
        · exact Or.inr (Or.inr (Or.inl ⟨via, reply, hnew _ hanswered⟩))
        · exact Or.inr (Or.inr (Or.inr (hnew _ hgone)))
      · exact Or.inr (Or.inr (Or.inl ⟨via, reply, hmono _ hanswered⟩))
      · exact Or.inr (Or.inr (Or.inr (hmono _ hgone)))
  case emptied =>
    rw [hpending]
    exact fun hr => h.emptied (hemptied hr)

/-- `Register` is sent again while the call that needs it is held. -/
private theorem Waits.registerHeld {s : Client} (h : Waits s) (hregistration : Registration s)
    {via : Via} {c : Call} {e : Event} (hfree : s.portal.registering = none) (he : e.mails = false) :
    Waits ((((s.tick.setPortal { s.portal with registering := some s.serial }).note
      e).hold c).release (.serving via)) := by
  -- A reply to `Register` is handled only while one is outstanding.
  have hbusy : ∀ m, s.reader ≠ .registered m := by
    intro m hm
    have hsome := hregistration.awaits (by rw [hm]; rfl)
    rw [hfree] at hsome
    cases hsome
  refine h.update rfl (Nat.le_succ _) ?_ ⟨[e], rfl, by simpa using he⟩ rfl (fun _ => rfl)
    (fun _ _ _ hn => hn) (fun m hm => absurd hm (hbusy m)) h.reply h.shut id
  intro n hn
  cases hn
  exact Or.inr rfl

/-- What the reading thread has is a reply, and the reply to `Register` where it goes on with it so. -/
private theorem Waits.matched {s : Client} (h : Waits s) {m : Message} {fds : List Fd} {r : Reader}
    (hreader : s.reader = .received m fds) (hreply : isReply m)
    (hr : r = .registered m ∧ serialOf m = s.portal.registering ∨ r = .replying m fds) :
    Waits (s.setReader r) := by
  have hwaiting : r.waiting = [] := by
    rcases hr with ⟨rfl, _⟩ | rfl <;> rfl
  refine h.update rfl (Nat.le_refl _) (fun _ => Or.inl) ⟨[], rfl, by simp⟩
    (by rw [hreader]; exact hwaiting) (by rw [hreader]; exact fun hne => absurd rfl hne)
    (fun k p _ hk => ?_) (fun m' hm => ?_) (fun m' hm => ?_) (fun hshut => ?_) (fun hemptied => ?_)
  · rw [hreader] at hk
    have hk' : serialOf m = some k := by simpa [Reader.unmatched, hreply] using hk
    rcases hr with ⟨rfl, _⟩ | rfl <;> exact hk'
  · rcases hr with ⟨rfl, hregistering⟩ | rfl
    · cases hm
      exact hregistering
    · cases hm
  · rcases hr with ⟨rfl, _⟩ | rfl
    · cases hm
    · cases hm
      exact hreply
  · rcases hr with ⟨rfl, _⟩ | rfl <;> cases hshut
  · rcases hr with ⟨rfl, _⟩ | rfl <;> cases hemptied

/-- The reading thread is done with a reply that no pending call waits for. -/
private theorem Waits.drops {s s' : Client} (h : Waits s) (hpending : s'.pending = s.pending)
    (hserial : s.serial ≤ s'.serial) (hregistering : ∀ n, s'.portal.registering = some n →
      s.portal.registering = some n) (hlog : ∃ es, s'.log = es ++ s.log ∧ ∀ e ∈ es, e.mails = false)
    (hwaiting : s.reader.waiting = []) (hafter : s'.reader.settled ∨ s'.reader = .drain)
    (hnone : ∀ n p, (n, p) ∈ s.pending → s.reader.unmatched ≠ some n)
    (hends : s'.reader.shut = false ∧ s'.reader.emptied = false) : Waits s' := by
  have hquiet : s'.reader.waiting = [] ∧ s'.reader.reply = none ∧ ∀ m, s'.reader ≠ .registered m := by
    rcases hafter with hsettled | hdrain
    · obtain ⟨hw, _, hr, hm⟩ := Reader.of_quiet (Reader.quiet_of_settled hsettled)
      exact ⟨hw, hr, hm⟩
    · rw [hdrain]
      exact ⟨rfl, rfl, fun m hm => by cases hm⟩
  obtain ⟨hw, hr, hm⟩ := hquiet
  refine h.update hpending hserial (fun n hn => Or.inl (hregistering n hn)) hlog
    (hw.trans hwaiting.symm) (fun hne => absurd hwaiting hne) (fun n p hp hn => absurd hn (hnone n p hp))
    (fun m hat => absurd hat (hm m)) (fun m hat => absurd (hr.symm.trans hat) (by simp)) ?_ ?_
  · rw [hends.1]
    exact fun hshut => by cases hshut
  · rw [hends.2]
    exact fun hemptied => by cases hemptied

private theorem Waits.quiet {s s' : Client} (h : Waits s) (hquiet : Quiet s s') : Waits s' := by
  obtain ⟨es, hlog, hes⟩ := hquiet.log
  obtain ⟨hwaiting, hunmatched, _⟩ := Reader.of_quiet hquiet.before
  obtain ⟨hwaiting', _, hreply, hregistered⟩ :=
    Reader.of_quiet (Reader.quiet_of_settled hquiet.after)
  refine h.update hquiet.pending hquiet.serial (fun n hn => Or.inl (hquiet.portal ▸ hn))
    ⟨es, hlog, ?_⟩ (hwaiting'.trans hwaiting.symm) (fun hne => absurd hwaiting hne)
    (fun _ _ _ hk => absurd (hunmatched.symm.trans hk) (by simp))
    (fun m hm => absurd hm (hregistered m))
    (fun m hm => absurd (hreply.symm.trans hm) (by simp)) ?_ ?_
  · intro e he
    have hclient := hes e he
    cases e <;> first | rfl | cases hclient
  · rw [hquiet.stillShut]
    exact fun hr => hquiet.shut (h.shut hr)
  · rw [hquiet.emptied]
    exact id

/-- Every pending call waits after a step as before it. -/
theorem waits_effect {cfg : Setup} {s s' : Client} {a : Action} (h : Waits s)
    (hregistration : Registration s) (heff : Effect cfg s a s') : Waits s' := by
  cases heff with
  | readAnswered c reply _ _ _ _ =>
      have hread : Waits (Client.note { s with calls := s.calls + 1 } (.read c)) :=
        h.stay rfl (Nat.le_refl _) rfl ⟨[_], rfl, by simp [Event.mails]⟩ rfl id
      exact hread.answer c reply
  | readCall c _ _ _ => exact h.stay rfl (Nat.le_refl _) rfl ⟨[_], rfl, by simp [Event.mails]⟩ rfl id
  | depart | leaveUnmapped | leave _ | goneSet _ =>
      exact h.stay rfl (Nat.le_refl _) rfl ⟨[], rfl, by simp⟩ rfl id
  | left _ =>
      obtain ⟨shut, hclose, hshut⟩ := closeIfDone_eq s
      rw [hclose]
      exact h.stay rfl (Nat.le_refl _) rfl ⟨[], rfl, by simp⟩ rfl hshut
  | found hat | notToPortal hat _ | noIdentity hat _ _ _ | sameOwner hat _ _ _ _
  | identified hat => exact h.goOn hat
  | allowed args file hat => exact Waits.goOn (h.note rfl) hat
  | unlisted hat =>
      obtain ⟨openRequests, hunlist⟩ := unlist_eq s _ _
      rw [hunlist]
      have hsame : Waits { s with openRequests := openRequests } :=
        h.stay rfl (Nat.le_refl _) rfl ⟨[], rfl, by simp⟩ rfl id
      exact hsame.goOn hat
  | elsewhere hat => exact Waits.release (h.note rfl) hat
  | unanswerable text hat => exact Waits.release (h.answer _ _) hat
  | @heldBehind via ch c hat _ _ =>
      have hheld : Waits (s.hold c) := h.stay rfl (Nat.le_refl _) rfl ⟨[], rfl, by simp⟩ rfl id
      exact hheld.release hat
  | registerFailed text hat | sendFailed text hat => exact Waits.release (h.tick.answer _ _) hat
  | answeredByPolicy reply hat _ =>
      exact Waits.release (Waits.answer (h.note (e := .judged _ _) rfl) _ reply) hat
  | registerHeld app hat _ hfree _ _ _ => exact h.registerHeld hregistration hfree.1 rfl
  | registerAgain app hat _ =>
      have hpassing : s.reader = _ := hat
      refine h.work rfl (Nat.le_succ _) ?_ ⟨[_], rfl, by simp [Event.mails]⟩
        (by rw [hpassing]; rfl) rfl
      intro n hn
      cases hn
      exact Or.inr rfl
  | sent p hat hopen hexpects hcall hserial hvia =>
      have hkeeps : p.Keeps := by
        subst hcall
        exact ⟨hexpects, hserial, hvia⟩
      exact Waits.release (h.sends hregistration hopen hkeeps hcall) hat
  | sentNoReply hat hexpects => exact Waits.release (Waits.note (h.tick.note hexpects) rfl) hat
  | received hrecv _ =>
      refine h.receives hrecv rfl (fun n hr hn => ?_) (by simp) (fun m hm => by cases hm) rfl rfl
      simp only [Arrival.header] at hr hn
      simp [Reader.unmatched, hr, hn]
  | receivedUndecodable n hrecv _ hserial =>
      refine h.receives hrecv rfl (fun k _ hk => ?_) (by simp) (fun m hm => ?_) rfl rfl
      · simp only [Arrival.header] at hk
        simp [Reader.unmatched, undecodableReply, serialOf, hserial] at hk ⊢
        exact hk
      · cases hm
        rfl
  | receivedUnknown hrecv _ hserial =>
      refine h.receives hrecv rfl (fun k _ hk => ?_) (by simp) (fun m hm => by cases hm) rfl rfl
      simp [Arrival.header, serialOf, hserial] at hk
  | close hrecv =>
      exact h.work rfl (Nat.le_refl _) (fun _ => Or.inl) ⟨[], rfl, by simp⟩ (by rw [hrecv]; rfl) rfl
  | registerReply hreader hreply n hserial hregistering =>
      exact h.matched hreader hreply (Or.inl ⟨rfl, hserial.trans hregistering.symm⟩)
  | otherReply hreader hreply _ => exact h.matched hreader hreply (Or.inr rfl)
  | registerAccepted hreader _ | registerRefused hreader _ =>
      refine h.drops rfl (Nat.le_refl _) (fun n hn => by cases hn) ⟨[_], rfl, by simp [Event.mails]⟩
        (by rw [hreader]; rfl) (Or.inr rfl) ?_ ⟨rfl, rfl⟩
      -- The reply is to `Register`, which no pending call is.
      intro k p hp hk
      rw [hreader] at hk
      exact h.register k ((h.registered _ hreader).symm.trans hk) p hp
  | drained hreader _ | takesHeld hreader | passedOn hreader | passesNext _ _ hreader
  | handedBack _ _ hreader =>
      exact h.work rfl (Nat.le_refl _) (fun _ => Or.inl) ⟨[], rfl, by simp⟩ (by rw [hreader]; rfl)
        rfl
  | unknownReply hreader hunknown =>
      refine h.drops rfl (Nat.le_refl _) (fun _ hn => hn) ⟨[], rfl, by simp⟩ (by rw [hreader]; rfl)
        (Or.inl rfl) ?_ ⟨rfl, rfl⟩
      intro k p hp hk
      rw [hreader] at hk
      exact hunknown k hk p hp
  | takesPending n p files requests hreader hserial hpending => exact h.takes hreader hserial hpending
  | replyToGone hreader _ =>
      refine h.ends [_] rfl rfl rfl rfl (by simp [Event.mails]) ?_ (by rw [hreader]; rfl) rfl
        (fun hr => by cases hr) (fun hr => by cases hr)
      intro p hp
      rw [hreader] at hp
      rw [List.mem_singleton.mp hp]
      exact Or.inr List.mem_cons_self
  | replyRelayed hreader =>
      refine h.ends [_] rfl rfl rfl rfl (by simp [Event.mails]) ?_ (by rw [hreader]; rfl) rfl
        (fun hr => by cases hr) (fun hr => by cases hr)
      intro p hp
      rw [hreader] at hp
      rw [List.mem_singleton.mp hp]
      exact Or.inl ⟨_, _, List.mem_cons_self⟩
  | unmaps hreader =>
      exact h.work rfl (Nat.le_refl _) (fun _ => Or.inl) ⟨[], rfl, by simp⟩ (by rw [hreader]; rfl)
        rfl
  | shutsDown hreader =>
      exact h.update rfl (Nat.le_refl _) (fun _ => Or.inl) ⟨[], rfl, by simp⟩
        (by rw [hreader]; rfl) (by rw [hreader]; exact fun hne => absurd rfl hne)
        (by rw [hreader]; exact fun _ _ _ hk => by cases hk) (fun m hm => by cases hm)
        (fun m hm => by cases hm) (fun _ => rfl) (fun hr => by cases hr)
  | drainsPending hreader => exact h.drains hreader
  | failsToGone hreader _ =>
      refine h.ends _ rfl rfl rfl rfl (by simp [Event.mails]) ?_ (by rw [hreader]; rfl) rfl
        (fun _ => h.shut (by rw [hreader]; rfl)) (fun _ => by rw [hreader]; rfl)
      intro p hp
      rw [hreader] at hp
      exact Or.inr (List.mem_map.mpr ⟨p, hp, rfl⟩)
  | fails hreader =>
      refine h.ends _ rfl rfl rfl rfl (by simp [Event.mails]) ?_ (by rw [hreader]; rfl) rfl
        (fun _ => h.shut (by rw [hreader]; rfl)) (fun _ => by rw [hreader]; rfl)
      intro p hp
      rw [hreader] at hp
      exact Or.inl ⟨_, _, List.mem_map.mpr ⟨p, hp, rfl⟩⟩
  | quiet hquiet => exact h.quiet hquiet

/-! ## Section 4: The Client Leaves -/

/-- The gateway takes the client to have left, or is about to. -/
def Client.Departing (s : Client) : Prop :=
  s.gone ∨ ∃ via, s.serving via = .leaving ∨ s.serving via = .left

section Departing

variable {s s₁ : Client}

/-- A serving thread goes where it does not handle a departure. -/
private theorem departing_setServing {via : Via} {th : Serving}
    (h : (s₁.setServing via th).Departing) (hgone : s₁.gone = s.gone)
    (hserving : s₁.serving = s.serving) (hth : th ≠ .leaving ∧ th ≠ .left) : s.Departing := by
  rcases h with h | ⟨via', h⟩
  · exact Or.inl (hgone ▸ h)
  · simp only [Client.setServing, hserving] at h
    split at h
    · rcases h with h | h
      · exact absurd h hth.1
      · exact absurd h hth.2
    · exact Or.inr ⟨via', h⟩

private theorem departing_same (h : s₁.Departing) (hgone : s₁.gone = s.gone)
    (hserving : s₁.serving = s.serving) : s.Departing := by
  rwa [Client.Departing, hgone, hserving] at h

private theorem departing_goOn {t : Thread} {c : Call} {st : Stage}
    (h : (s₁.goOn t c st).Departing) (hgone : s₁.gone = s.gone)
    (hserving : s₁.serving = s.serving) : s.Departing := by
  cases t with
  | serving via => exact departing_setServing h hgone hserving (by simp)
  | reader rest => exact departing_same h hgone hserving

private theorem departing_release {t : Thread} (h : (s₁.release t).Departing)
    (hgone : s₁.gone = s.gone) (hserving : s₁.serving = s.serving) : s.Departing := by
  cases t with
  | serving via => exact departing_setServing h hgone hserving (by simp)
  | reader rest => exact departing_same h hgone hserving

end Departing

/-- Only the news of a departure makes the gateway take the client to have left. -/
theorem departing_effect {cfg : Setup} {s s' : Client} {a : Action} (heff : Effect cfg s a s')
    (h : s'.Departing) : s.Departing ∨ ∃ via, a = .leave via := by
  cases heff with
  | leave _ | leaveUnmapped => exact Or.inr ⟨_, rfl⟩
  | goneSet hleaving => exact Or.inl (Or.inr ⟨_, Or.inl hleaving⟩)
  | left hleft => exact Or.inl (Or.inr ⟨_, Or.inr hleft⟩)
  | readCall _ _ _ _ => exact Or.inl (departing_setServing h rfl rfl (by simp))
  | found _ | notToPortal _ _ | noIdentity _ _ _ _ | sameOwner _ _ _ _ _ | identified _
  | allowed _ _ _ => exact Or.inl (departing_goOn h rfl rfl)
  | unlisted _ =>
      obtain ⟨openRequests, hunlist⟩ := unlist_eq s _ _
      rw [hunlist] at h
      exact Or.inl (departing_goOn h rfl rfl)
  | elsewhere _ | unanswerable _ _ | heldBehind _ _ _ | registerFailed _ _
  | registerHeld _ _ _ _ _ _ _ | answeredByPolicy _ _ _ | sendFailed _ _ | sent _ _ _ _ _ _ _
  | sentNoReply _ _ => exact Or.inl (departing_release h rfl rfl)
  | quiet hquiet => exact Or.inl (departing_same h hquiet.gone hquiet.serving)
  | _ => exact Or.inl h

/-- The client does not come back under its name, and the gateway does not take it to
be back. -/
theorem presence_effect {cfg : Setup} {s s' : Client} {a : Action} (heff : Effect cfg s a s') :
    (s'.present → s.present) ∧ (s.gone → s'.gone) := by
  cases heff with
  | depart => exact ⟨(fun h => by cases h), id⟩
  | goneSet _ => exact ⟨id, fun _ => rfl⟩
  | left _ =>
      obtain ⟨shut, hclose, _⟩ := closeIfDone_eq s
      rw [hclose]
      exact ⟨id, id⟩
  | @found _ t _ _ | @notToPortal _ t _ _ _ | @noIdentity _ t _ _ _ _ _
  | @sameOwner _ t _ _ _ _ _ _ | @identified _ t _ _ _ | @allowed _ t _ _ _ _ _ _
  | @elsewhere _ t _ _ | @unanswerable _ t _ _ _ | @registerFailed _ t _ _ _
  | @answeredByPolicy _ t _ _ _ _ _ _ | @sendFailed _ t _ _ _ _ _ _
  | @sent _ t _ _ _ _ _ _ _ _ _ _ _ | @sentNoReply _ t _ _ _ _ _ _ => cases t <;> exact ⟨id, id⟩
  | @unlisted _ t _ _ _ _ _ =>
      obtain ⟨openRequests, hunlist⟩ := unlist_eq s _ _
      rw [hunlist]
      cases t <;> exact ⟨id, id⟩
  | quiet hquiet => exact ⟨fun h => hquiet.present ▸ h, fun h => hquiet.gone ▸ h⟩
  | _ => exact ⟨id, id⟩

/-- What the log says of the calls that ended. -/
structure Ended (s : Client) : Prop where
  answers : ∀ c via reply, .answered c via reply ∈ s.log →
    c.msg.expectsReply ∧ via = c.via ∧ Replies c reply
  noReply : ∀ c, .finished c .noReply ∈ s.log → c.msg.expectsReply = false
  gone : ∀ c, .finished c .gone ∈ s.log → s.gone

theorem ended_effect {cfg : Setup} {s s' : Client} {a : Action} (h : Ended s) (hwaits : Waits s)
    (heff : Effect cfg s a s') : Ended s' := by
  obtain ⟨es, hlog, hes⟩ := effect_log heff
  constructor
  case answers =>
    intro c via reply hanswered
    rw [hlog] at hanswered
    rcases List.mem_append.mp hanswered with hnew | hold
    · rcases hes _ hnew with hown | ⟨p, hp, rfl, rfl, hserial, hreply⟩
      · exact hown
      · -- The call was pending, as it was sent.
        obtain ⟨hexpects, hcaller, hvia⟩ := hwaits.waiting p hp
        refine ⟨hexpects, hvia, ?_, hcaller ▸ hserial⟩
        rcases hreply with hreply | ⟨m, fds, hreader, hkind⟩
        · exact hreply
        · have hm := hwaits.reply m (by rw [hreader]; rfl)
          simpa [isReply, hkind] using hm
    · exact h.answers c via reply hold
  case noReply =>
    intro c hfinished
    rw [hlog] at hfinished
    rcases List.mem_append.mp hfinished with hnew | hold
    · exact hes _ hnew
    · exact h.noReply c hold
  case gone =>
    intro c hfinished
    rw [hlog] at hfinished
    rcases List.mem_append.mp hfinished with hnew | hold
    · exact (presence_effect heff).2 (hes _ hnew)
    · exact (presence_effect heff).2 (h.gone c hold)

/-! ## Section 5: The Host Connection Ends -/

/-- The call that a serving thread has before the gate. -/
def Client.atGate (s : Client) (via : Via) : Option Call :=
  match s.serving via with
  | .forwarding c .gate => some c
  | _ => none

/-- The gate puts the call behind the held ones, or registers again for it first. -/
def Client.holds (s : Client) (c : Call) (ch : Choice) : Bool :=
  c.toPortal && (s.portal.registering.isSome || s.portal.draining ||
    (s.portal.appId.isSome &&
      !(s.portal.owner.isSome && s.portal.owner == s.ownerOf portalName) && ch.sent))

private theorem ended_goOn {s : Client} {t : Thread} {c : Call} {st : Stage}
    (h : (s.goOn t c st).reader.ended) : s.reader.ended := by
  cases t with
  | serving via => exact h
  | reader rest => cases h

private theorem ended_release {s : Client} {t : Thread} (h : (s.release t).reader.ended) :
    s.reader.ended := by
  cases t with
  | serving via => exact h
  | reader rest => cases h

private theorem atGate_of_at {s : Client} {via : Via} {c : Call}
    (hat : s.At (.serving via) c .gate) : s.atGate via = some c := by
  have hforwarding : s.serving via = .forwarding c .gate := hat
  rw [Client.atGate, hforwarding]

/-- What is held once the host connection has ended was held before the step, or is
held in it by a serving thread. -/
theorem held_effect {cfg : Setup} {s s' : Client} {a : Action} {c : Call}
    (heff : Effect cfg s a s') (hended : s'.reader.ended) (hc : c ∈ s'.portal.held) :
    (c ∈ s.portal.held ∧ (s.reader.ended ∨ a = .close)) ∨
      ∃ via ch, a = .serve via ch ∧ s.reader.ended ∧ s.atGate via = some c ∧ s.holds c ch := by
  cases heff with
  -- What a serving thread does with its own call holds none.
  | found _ | notToPortal _ _ | noIdentity _ _ _ _ | sameOwner _ _ _ _ _ | identified _
  | allowed _ _ _ =>
      rw [portal_goOn] at hc
      have hbefore := ended_goOn hended
      exact Or.inl ⟨hc, Or.inl hbefore⟩
  | unlisted _ =>
      obtain ⟨openRequests, hunlist⟩ := unlist_eq s _ _
      rw [hunlist] at hc hended
      rw [portal_goOn] at hc
      have hbefore := ended_goOn hended
      exact Or.inl ⟨hc, Or.inl hbefore⟩
  | elsewhere _ | unanswerable _ _ | registerFailed _ _ | answeredByPolicy _ _ _ | sendFailed _ _
  | sent _ _ _ _ _ _ _ | sentNoReply _ _ =>
      rw [portal_release] at hc
      have hbefore := ended_release hended
      exact Or.inl ⟨hc, Or.inl hbefore⟩
  -- The two steps that hold a call: the host connection ended before.
  | heldBehind hat hportal hwait =>
      rcases List.mem_append.mp hc with hc | hc
      · exact Or.inl ⟨hc, Or.inl hended⟩
      · cases List.mem_singleton.mp hc
        refine Or.inr ⟨_, _, rfl, hended, atGate_of_at hat, ?_⟩
        rcases hwait with hwait | hwait <;> simp [Client.holds, hportal, hwait]
  | registerHeld app hat hportal hfree happ howner hsent =>
      rcases List.mem_append.mp hc with hc | hc
      · exact Or.inl ⟨hc, Or.inl hended⟩
      · cases List.mem_singleton.mp hc
        refine Or.inr ⟨_, _, rfl, hended, atGate_of_at hat, ?_⟩
        simp [Client.holds, hportal, happ, howner, hsent]
  | left _ =>
      obtain ⟨shut, hclose, _⟩ := closeIfDone_eq s
      rw [hclose] at hc hended
      exact Or.inl ⟨hc, Or.inl hended⟩
  | close _ => exact Or.inl ⟨hc, Or.inr rfl⟩
  | unmaps hreader | shutsDown hreader | drainsPending hreader | failsToGone hreader _
  | fails hreader => exact Or.inl ⟨hc, Or.inl (by rw [hreader]; rfl)⟩
  | quiet hquiet =>
      rw [hquiet.portal] at hc
      exact Or.inl ⟨hc, Or.inl (hquiet.ended ▸ hended)⟩
  | readAnswered _ _ _ _ _ _ | readCall _ _ _ _ | depart | leaveUnmapped | leave _ | goneSet _ =>
      exact Or.inl ⟨hc, Or.inl hended⟩
  -- After any other step the reading thread goes on.
  | _ => cases hended

/-! ## Section 6: Every Call Is Answered Once -/

/-- Each call that expects a reply is answered at most once, as its own, and by the
time the host has replied to it or the host connection has closed. -/
structure AnsweredOnce (s : Client) : Prop where
  once : (s.log.filterMap Event.answeredCall).Nodup
  own : ∀ c via reply, .answered c via reply ∈ s.log →
    s.WasRead c ∧ c.msg.expectsReply ∧ via = c.via ∧ Replies c reply
  /-- The reading thread has dealt with the reply. -/
  replied : s.present → ∀ c identified file n out, .sent c identified file n out ∈ s.log →
    c.msg.expectsReply → Replied s.log n → s.reader.handling ≠ some n → s.Answered c
  /-- A call that another host connection was made for is not this client's any
  more. -/
  closed : s.present → s.reader = .done → ∀ c, s.WasRead c → c.msg.expectsReply →
    s.Answered c ∨ (∃ via st, s.serving via = .forwarding c st) ∨ .finished c .elsewhere ∈ s.log

/-- The client has left when the gateway is told so, and when the host connection
ends no call that expects a reply is held, nor comes to be held afterwards. -/
def AnswersDue (s : Client) : Action → Prop
  | .leave _ => s.present = false
  | .close => ∀ c ∈ s.portal.held, c.msg.expectsReply = false
  | .serve via ch => s.reader.ended → ∀ c ∈ s.atGate via, s.holds c ch → c.msg.expectsReply = false
  | _ => True

instance (s : Client) : ∀ a, Decidable (AnswersDue s a)
  | .leave _ => inferInstanceAs (Decidable (s.present = false))
  | .close => inferInstanceAs (Decidable (∀ c ∈ s.portal.held, c.msg.expectsReply = false))
  | .serve via ch => inferInstanceAs (Decidable (s.reader.ended → ∀ c ∈ s.atGate via,
      s.holds c ch → c.msg.expectsReply = false))
  | .read _ _ | .depart | .receive _ | .relay _ => isTrue trivial

structure Answering (s : Client) : Prop where
  registration : Registration s
  accounted : Accounted s
  waits : Waits s
  ended : Ended s
  left : s.Departing → s.present = false
  held : s.reader.ended → ∀ c ∈ s.portal.held, c.msg.expectsReply = false

theorem answering_step {cfg : Setup} {s s' : Client} {a : Action} (h : Answering s)
    (hdue : AnswersDue s a) (hstep : step cfg s a = some s') : Answering s' := by
  have heff := step_effect hstep
  refine ⟨registration_effect h.registration heff, accounted_effect h.accounted heff,
    waits_effect h.waits h.registration heff, ended_effect h.ended h.waits heff, ?_, ?_⟩
  · intro hdeparting
    have hnot : s.present = false := by
      rcases departing_effect heff hdeparting with hdeparting | ⟨via, rfl⟩
      · exact h.left hdeparting
      · exact hdue
    by_contra hpresent
    have hback := (presence_effect heff).1 (by simpa using hpresent)
    rw [hnot] at hback
    cases hback
  · intro hended c hc
    rcases held_effect heff hended hc with ⟨hc, hended | rfl⟩ | ⟨via, ch, rfl, hended, hat, hholds⟩
    · exact h.held hended c hc
    · exact hdue c hc
    · exact hdue hended c hat hholds

theorem answering_initial {serial : Nat} {appId owner : Option String}
    {owners : List (String × String)} (howner : ∀ o, owner = some o → senderName o) :
    Answering (initial serial appId owner owners) := by
  have hnone : ∀ e, e ∉ (initial serial appId owner owners).log := fun _ => List.not_mem_nil
  have hempty : ∀ p, (initial serial appId owner owners).tokens p = 0 := by
    intro p
    cases p <;> rfl
  have hledger : Ledger (initial serial appId owner owners).WasRead
      (initial serial appId owner owners).tokens := by
    refine ⟨fun p => ?_, fun p q c hc => ?_, fun p c hc => ?_, fun c hc => ?_⟩
    · rw [hempty p]
      exact Multiset.nodup_zero
    · rw [hempty p] at hc
      exact absurd hc (Multiset.notMem_zero c)
    · rw [hempty p] at hc
      exact absurd hc (Multiset.notMem_zero c)
    · exact absurd hc (hnone _)
  have hwaits : Waits (initial serial appId owner owners) := by
    refine ⟨(fun n p hp => by cases hp), (fun p hp => by cases hp), List.nodup_nil,
      (fun n hn => by cases hn), (fun m hm => by cases hm), (fun n p hp => by cases hp),
      (fun m hm => by cases hm), fun c identified file n out hsent => ?_, (fun hr => by cases hr),
      (fun hr => by cases hr)⟩
    exact absurd hsent (hnone _)
  refine ⟨registration_initial howner not_replied_nil, ⟨hledger, fun c hc => ?_⟩, hwaits,
    ⟨fun c via reply hc => ?_, fun c hc => ?_, fun c hc => ?_⟩, ?_, (fun hr => by cases hr)⟩
  · exact absurd hc (hnone _)
  · exact absurd hc (hnone _)
  · exact absurd hc (hnone _)
  · exact absurd hc (hnone _)
  · rintro (h | ⟨via, h | h⟩) <;> cases h

theorem answeredOnce_of {s : Client} (h : Answering s) : AnsweredOnce s := by
  -- Only what a client that has left still waited for is given up.
  have hgone : s.present → ∀ c, .finished c .gone ∉ s.log := by
    intro hpresent c hc
    have hleft := h.left (Or.inl (h.ended.gone c hc))
    rw [hpresent] at hleft
    cases hleft
  constructor
  case once =>
    exact Multiset.coe_nodup.mp (h.accounted.ledger.nodup .answered)
  case own =>
    intro c via reply hc
    have hread := h.accounted.ledger.sound .answered c (mem_tokens_answered.mpr ⟨via, reply, hc⟩)
    exact ⟨hread, h.ended.answers c via reply hc⟩
  case replied =>
    intro hpresent c identified file n out hsent hexpects hreplied hhandling
    rcases (h.waits.sent c identified file n out hsent hexpects).2 with
      ⟨p, hp, _⟩ | ⟨p, _, _, hn | hn⟩ | hanswered | hfinished
    · exact absurd (Reader.handling_of_unmatched (h.waits.unreplied n p hp hreplied)) hhandling
    · exact absurd hn hhandling
    · exact absurd hreplied hn
    · exact hanswered
    · exact absurd hfinished (hgone hpresent c)
  case closed =>
    intro hpresent hdone c hread hexpects
    -- The ledger has the call in one of its places.
    obtain ⟨place, hplace⟩ := h.accounted.ledger.total c hread
    cases place with
    | serving via =>
        refine Or.inr (Or.inl ⟨via, ?_⟩)
        simp only [Client.tokens] at hplace
        cases hserving : s.serving via with
        | forwarding c' st =>
            rw [hserving] at hplace
            rw [List.mem_singleton.mp (Multiset.mem_coe.mp hplace)]
            exact ⟨st, rfl⟩
        | _ =>
            rw [hserving] at hplace
            cases hplace
    | held =>
        have hnot := h.held (by rw [hdone]; rfl) c hplace
        rw [hexpects] at hnot
        cases hnot
    | pending =>
        simp only [Client.tokens, h.waits.emptied (by rw [hdone]; rfl)] at hplace
        cases hplace
    | reader =>
        simp only [Client.tokens, hdone] at hplace
        cases hplace
    | answered => exact Or.inl (mem_tokens_answered.mp hplace)
    | finished =>
        obtain ⟨why, hwhy⟩ := mem_tokens_finished.mp hplace
        cases why with
        | noReply =>
            have hnot := h.ended.noReply c hwhy
            rw [hexpects] at hnot
            cases hnot
        | gone => exact absurd hwhy (hgone hpresent c)
        | elsewhere => exact Or.inr (Or.inr hwhy)

/-- Whatever the interleaving, each call is answered once, in the runs whose steps
meet `AnswersDue`. -/
theorem answered_once (cfg : Setup) (serial : Nat) (appId owner : Option String)
    (owners : List (String × String)) (howner : ∀ o, owner = some o → senderName o)
    (as : List Action) (s : Client)
    (hdue : StepsMeet (step cfg) AnswersDue (initial serial appId owner owners) as)
    (hrun : run (step cfg) (initial serial appId owner owners) as = some s) : AnsweredOnce s := by
  have hkeep : ∀ s a s', Answering s → AnswersDue s a → step cfg s a = some s' → Answering s' :=
    fun s a s' => answering_step
  exact answeredOnce_of (run_invariant_of_meets hkeep (answering_initial howner) hdue hrun)

/-- The new portal's answer to the held call, once that was passed on. -/
def settingsReturn : Message :=
  { kind := Kind.methodReturn, replySerial := some 3, sender := some ":1.7" }

/-- The portal restarts, accepts the client again and answers its call; then the
connection closes. -/
def answeredRun : List Action :=
  untilRegister ++ .receive (.message registerReturn []) :: List.replicate 12 (.relay {}) ++
    .receive (.message settingsReturn []) :: List.replicate 3 (.relay {}) ++
    .close :: List.replicate 6 (.relay {})

theorem answered_once_restarted :
    ∃ s, run (step exampleSetup) restarted answeredRun = some s ∧ AnsweredOnce s := by
  have hsome : (run (step exampleSetup) restarted answeredRun).isSome := by
    decide
  obtain ⟨s, hs⟩ := Option.isSome_iff_exists.mp hsome
  exact ⟨s, hs, answered_once _ _ _ _ _ (by decide) _ s (by decide +kernel) hs⟩

/-- The host connection closes on a call that is held: nothing answers it. -/
theorem held_call_unanswered :
    ∃ s, run (step exampleSetup) restarted
        (untilRegister ++ .close :: List.replicate 6 (.relay {})) = some s ∧ ¬ AnsweredOnce s := by
  have hrun : (run (step exampleSetup) restarted
      (untilRegister ++ .close :: List.replicate 6 (.relay {}))).any fun s =>
        s.present && (s.reader matches .done) && s.portal.held.any (·.msg.expectsReply) := by
    decide
  obtain ⟨s, hs, hstate⟩ := (Option.any_eq_true _ _).mp hrun
  refine ⟨s, hs, fun h => ?_⟩
  simp only [Bool.and_eq_true, List.any_eq_true] at hstate
  obtain ⟨⟨hpresent, hdone⟩, c, hheld, hexpects⟩ := hstate
  have hledger := (accounted_run (answering_initial (by decide)).accounted hs).ledger
  have hread := hledger.sound .held c hheld
  have hreader : s.reader = .done := by
    cases hr : s.reader <;> rw [hr] at hdone <;> first | rfl | cases hdone
  rcases h.closed hpresent hreader c hread hexpects with hanswered | ⟨via, st, hat⟩ | helsewhere
  · cases hledger.disjoint .held .answered c hheld (mem_tokens_answered.mpr hanswered)
  · have hserving : c ∈ s.tokens (.serving via) := by
      simp only [Client.tokens, hat]
      exact Multiset.mem_singleton_self c
    cases hledger.disjoint .held (.serving via) c hheld hserving
  · cases hledger.disjoint .held .finished c hheld (mem_tokens_finished.mpr ⟨_, helsewhere⟩)

end Psbox.Gateway
