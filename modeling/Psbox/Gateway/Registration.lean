import Psbox.Gateway.Effects

/-!
# Registering Again After a Portal Restart

A client is registered with one portal instance. When the portal's name changes
hands, the next call to the portal registers the client again, and calls wait in
`held` for the reply; the reading thread then passes them on.

`Registration` is what holds between steps. Its core is an exclusion: a serving
thread that has a portal call past the gate leaves no registration outstanding and
no calls being passed on, so the identity a call is judged with is the identity of
the portal it is sent to.

## Main results

* `registered_once_answered`: `registering` and `held` follow the host's replies, in
  the runs where every reply to a `Register` decodes; `held_after_undecodable_reply`
  is a run where one does not.
-/

namespace Psbox.Gateway

open Psbox.DBus Psbox.Portal Psbox.Foundations

/-! ## Section 1: What the Log Says -/

/-- A reply to the serial was received, decodable or not. -/
def Replied (log : List Event) (n : Nat) : Prop :=
  ∃ a, Event.received a ∈ log ∧ isReply a.header ∧ serialOf a.header = some n

/-- A reply to the serial was received that could not be decoded. -/
def Lost (log : List Event) (n : Nat) : Prop :=
  ∃ u, Event.received (.undecodable u) ∈ log ∧ isReply u.message ∧ serialOf u.message = some n

theorem replied_iff_any {log : List Event} {n : Nat} :
    Replied log n ↔ log.any fun e => match e with
      | .received a => isReply a.header && serialOf a.header == some n
      | _ => false := by
  rw [List.any_eq_true]
  constructor
  · rintro ⟨a, ha, hreply, hserial⟩
    exact ⟨.received a, ha, by simp [hreply, hserial]⟩
  · rintro ⟨e, he, hmatch⟩
    cases e with
    | received a => exact ⟨a, he, by simpa using hmatch⟩
    | _ => cases hmatch

instance (log : List Event) (n : Nat) : Decidable (Replied log n) :=
  decidable_of_iff _ replied_iff_any.symm

/-- The events that say how the registration stands. -/
def Event.registers : Event → Bool
  | received _ | accepted _ | refused => true
  | _ => false

theorem replied_append {es log : List Event} (hes : ∀ e ∈ es, e.registers = false) (n : Nat) :
    Replied (es ++ log) n ↔ Replied log n := by
  constructor
  · rintro ⟨a, ha, hreply, hserial⟩
    rcases List.mem_append.mp ha with h | h
    · exact absurd (hes _ h) (by simp [Event.registers])
    · exact ⟨a, h, hreply, hserial⟩
  · rintro ⟨a, ha, hreply, hserial⟩
    exact ⟨a, List.mem_append_right _ ha, hreply, hserial⟩

theorem replied_received {a : Arrival} {log : List Event} {n : Nat} :
    Replied (.received a :: log) n ↔
      (isReply a.header ∧ serialOf a.header = some n) ∨ Replied log n := by
  constructor
  · rintro ⟨a', ha, hreply, hserial⟩
    rcases List.mem_cons.mp ha with h | h
    · cases h
      exact Or.inl ⟨hreply, hserial⟩
    · exact Or.inr ⟨a', h, hreply, hserial⟩
  · rintro (⟨hreply, hserial⟩ | ⟨a', ha, hreply, hserial⟩)
    · exact ⟨a, List.mem_cons_self, hreply, hserial⟩
    · exact ⟨a', List.mem_cons_of_mem _ ha, hreply, hserial⟩

/-! ## Section 2: The Invariant -/

/-- Past the gate: the portal state was looked at. -/
def Stage.passed : Stage → Bool
  | lookup | gate => false
  | _ => true

/-- The loop of `registered` that passes on held calls is running. -/
def Reader.drains : Reader → Bool
  | drain | next _ | passing _ _ _ | handBack _ _ => true
  | _ => false

/-- The registration is outstanding while the reading thread is here. -/
def Reader.awaits : Reader → Bool
  | registered _ | handBack _ _ => true
  | _ => false

/-- The message that is looked at for what it says of the registration. -/
def Reader.message : Reader → Option Message
  | received m _ | registered m => some m
  | _ => none

theorem Reader.message_of_drains {r : Reader} (h : r.drains) : r.message = none := by
  cases r with
  | received m fds => cases h
  | registered m => cases h
  | _ => rfl

/-- What a stage has read agrees with the portal state: a call judged with an
identity goes to the instance that accepted it. -/
def PortalState.Pins (p : PortalState) : Stage → Prop
  | .lookup | .gate => True
  | .identify dest => p.appId.isSome → p.owner.isSome ∧ dest = p.owner
  | .judge dest identified => identified → p.appId.isSome ∧ p.owner.isSome ∧ dest = p.owner
  | .unlist identified _ out | .send identified _ out =>
      identified → p.appId.isSome ∧ p.owner.isSome ∧ out.destination = p.owner

structure Registration (s : Client) : Prop where
  fresh : ∀ n, s.portal.registering = some n → n < s.serial
  replied : ∀ n, Replied s.log n → n < s.serial
  awaits : s.reader.awaits → s.portal.registering.isSome
  draining : s.portal.draining = s.reader.drains
  held : s.portal.held ≠ [] → s.portal.registering.isSome ∨ s.portal.draining
  via : ∀ via c st, s.At (.serving via) c st → c.via = via
  /-- A serving thread past the gate with a portal call leaves nothing outstanding. -/
  alone : ∀ via c st, s.At (.serving via) c st → c.toPortal → st.passed →
    s.portal.registering = none ∧ s.portal.draining = false
  pinned : ∀ t c st, s.At t c st → c.toPortal → s.portal.Pins st
  owner : ∀ o, s.portal.owner = some o → senderName o
  sender : ∀ m, s.reader.message = some m → m.sender.any senderName
  /-- What answers the outstanding `Register` is handled at once, unless it is lost. -/
  unanswered : ∀ n, s.portal.registering = some n → Replied s.log n →
    Lost s.log n ∨ ∃ m, s.reader.message = some m ∧ isReply m ∧ serialOf m = some n

/-- A step that leaves the registration as it stands. -/
structure SameRegistration (s s' : Client) : Prop where
  portal : s'.portal = s.portal
  serial : s.serial ≤ s'.serial
  log : ∃ es, s'.log = es ++ s.log ∧ ∀ e ∈ es, e.registers = false
  drains : s'.reader.drains = s.reader.drains
  awaits : s'.reader.awaits → s.reader.awaits
  message : ∀ m, s'.reader.message = some m → s.reader.message = some m
  keeps : ∀ m, s.reader.message = some m → isReply m → s.portal.registering.isSome →
    serialOf m = s.portal.registering → s'.reader.message = some m
  threads : ∀ t c st, s'.At t c st →
    s.At t c st ∨ (st = .lookup ∧ ∀ via, t = .serving via → c.via = via)

theorem Registration.same {s s' : Client} (h : Registration s) (hs : SameRegistration s s') :
    Registration s' := by
  obtain ⟨hportal, hserial, ⟨es, hlog, hes⟩, hdrains, hawaits, hmessage, hkeeps, hthreads⟩ := hs
  constructor
  case fresh =>
    intro n hn
    rw [hportal] at hn
    exact Nat.lt_of_lt_of_le (h.fresh n hn) hserial
  case replied =>
    intro n hn
    rw [hlog, replied_append hes] at hn
    exact Nat.lt_of_lt_of_le (h.replied n hn) hserial
  case awaits =>
    intro hr
    rw [hportal]
    exact h.awaits (hawaits hr)
  case draining =>
    rw [hportal, hdrains]
    exact h.draining
  case held =>
    rw [hportal]
    exact h.held
  case via =>
    intro via c st hat
    -- The call was there before, or was held and starts over.
    rcases hthreads _ c st hat with hat | ⟨_, hvia⟩
    · exact h.via via c st hat
    · exact hvia via rfl
  case alone =>
    intro via c st hat hc hst
    rw [hportal]
    rcases hthreads _ c st hat with hat | ⟨rfl, _⟩
    · exact h.alone via c st hat hc hst
    · cases hst
  case pinned =>
    intro t c st hat hc
    rw [hportal]
    rcases hthreads t c st hat with hat | ⟨rfl, _⟩
    · exact h.pinned t c st hat hc
    · trivial
  case owner =>
    rw [hportal]
    exact h.owner
  case sender =>
    intro m hm
    exact h.sender m (hmessage m hm)
  case unanswered =>
    intro n hn hreplied
    rw [hportal] at hn
    rw [hlog, replied_append hes] at hreplied
    rcases h.unanswered n hn hreplied with ⟨u, hu, hreply, hserial⟩ | ⟨m, hm, hreply, hserial⟩
    · exact Or.inl ⟨u, hlog ▸ List.mem_append_right _ hu, hreply, hserial⟩
    · exact Or.inr ⟨m, hkeeps m hm hreply (by simp [hn]) (hserial.trans hn.symm), hreply, hserial⟩

/-! ## Section 3: Threads That Pass Calls On -/

/-- A thread goes on with its call: what its new stage has read must agree with the
portal state, and past the gate nothing may be outstanding. -/
theorem Registration.goOn {s s₁ : Client} {t : Thread} {c : Call} {st st' : Stage}
    (h : Registration s) (hs : SameRegistration s s₁) (hat : s.At t c st)
    (hreader : s₁.reader = s.reader) (hserving : s₁.serving = s.serving)
    (hpins : c.toPortal → s.portal.Pins st')
    (hpassed : c.toPortal → st'.passed → t.fromHeld = false → st.passed ∨
      (s.portal.registering = none ∧ s.portal.draining = false)) :
    Registration (s₁.goOn t c st') := by
  have h₁ := h.same hs
  -- No thread but this one moves.
  have hsame : ∀ t' c' st'', s₁.At t' c' st'' → s.At t' c' st'' := by
    intro t' c' st'' hat'
    cases t' with
    | serving via => rwa [Client.At, hserving] at hat'
    | reader rest => rwa [Client.At, hreader] at hat'
  have hthreads : ∀ t' c' st'', (s₁.goOn t c st').At t' c' st'' →
      (t' = t ∧ c' = c ∧ st'' = st') ∨ s.At t' c' st'' := by
    intro t' c' st'' hat'
    rcases at_goOn hat' with heq | hat'
    · exact Or.inl heq
    · exact Or.inr (hsame t' c' st'' hat')
  have hportal : (s₁.goOn t c st').portal = s.portal := by
    rw [← hs.portal]
    cases t <;> rfl
  have hserial : (s₁.goOn t c st').serial = s₁.serial := by cases t <;> rfl
  have hlog : (s₁.goOn t c st').log = s₁.log := by cases t <;> rfl
  constructor
  case fresh =>
    intro n hn
    rw [hserial]
    exact h₁.fresh n (by rwa [hportal, ← hs.portal] at hn)
  case replied =>
    intro n hn
    rw [hserial]
    exact h₁.replied n (by rwa [hlog] at hn)
  case awaits =>
    intro hr
    rw [hportal]
    cases t with
    | serving via =>
        have hr' : s₁.reader.awaits := hr
        exact h.awaits (hreader ▸ hr')
    | reader rest => cases hr
  case draining =>
    rw [hportal, h.draining]
    cases t with
    | serving via => exact congrArg Reader.drains hreader.symm
    | reader rest =>
        have hpassing : s.reader = .passing c st rest := hat
        rw [hpassing]
        rfl
  case held =>
    rw [hportal]
    exact h.held
  case via =>
    intro via c' st'' hat'
    rcases hthreads _ c' st'' hat' with ⟨rfl, rfl, rfl⟩ | hat'
    · exact h.via via c' st hat
    · exact h.via via c' st'' hat'
  case alone =>
    intro via c' st'' hat' hc hst
    rw [hportal]
    rcases hthreads _ c' st'' hat' with ⟨rfl, rfl, rfl⟩ | hat'
    -- It passes the gate here, or was past it before.
    · rcases hpassed hc hst rfl with hst | hfree
      · exact h.alone via c' st hat hc hst
      · exact hfree
    · exact h.alone via c' st'' hat' hc hst
  case pinned =>
    intro t' c' st'' hat' hc
    rw [hportal]
    rcases hthreads t' c' st'' hat' with ⟨rfl, rfl, rfl⟩ | hat'
    · exact hpins hc
    · exact h.pinned t' c' st'' hat' hc
  case owner =>
    rw [hportal]
    exact h.owner
  case sender =>
    intro m hm
    cases t with
    | serving via => exact h₁.sender m hm
    | reader rest => cases hm
  case unanswered =>
    intro n hn hreplied
    rw [hportal, ← hs.portal] at hn
    rw [hlog] at hreplied ⊢
    rcases h₁.unanswered n hn hreplied with hlost | ⟨m, hm, hreply⟩
    · exact Or.inl hlost
    · cases t with
      | serving via => exact Or.inr ⟨m, hm, hreply⟩
      | reader rest =>
          have hpassing : s.reader = .passing c st rest := hat
          rw [hreader, hpassing] at hm
          cases hm

/-- A step that changes only what the log and the serial say. -/
private theorem sameRegistration_of {s s₁ : Client} (hportal : s₁.portal = s.portal)
    (hserial : s.serial ≤ s₁.serial) (hreader : s₁.reader = s.reader)
    (hserving : s₁.serving = s.serving)
    (hlog : ∃ es, s₁.log = es ++ s.log ∧ ∀ e ∈ es, e.registers = false) :
    SameRegistration s s₁ := by
  refine ⟨hportal, hserial, hlog, by rw [hreader], fun hr => by rwa [hreader] at hr,
    fun m hm => by rwa [hreader] at hm, fun m hm _ _ _ => by rwa [hreader], ?_⟩
  intro t c st hat
  left
  cases t with
  | serving via => rwa [Client.At, hserving] at hat
  | reader rest => rwa [Client.At, hreader] at hat

private theorem SameRegistration.release {s s₁ : Client} {t : Thread} {c : Call} {st : Stage}
    (hs : SameRegistration s s₁) (hat : s₁.At t c st) : SameRegistration s (s₁.release t) := by
  obtain ⟨hportal, hserial, hlog, hdrains, hawaits, hmessage, hkeeps, hthreads⟩ := hs
  cases t with
  | serving via =>
      exact ⟨hportal, hserial, hlog, hdrains, hawaits, hmessage, hkeeps,
        fun t' c' st' hat' => hthreads t' c' st' (at_release hat').2⟩
  | reader rest =>
      have hpassing : s₁.reader = .passing c st rest := hat
      refine ⟨hportal, hserial, hlog, ?_, (fun hr => by cases hr), (fun m hm => by cases hm), ?_,
        fun t' c' st' hat' => hthreads t' c' st' (at_release hat').2⟩
      · rw [hpassing] at hdrains
        exact hdrains
      · intro m hm hreply hsome hserial
        have hkept := hkeeps m hm hreply hsome hserial
        rw [hpassing] at hkept
        cases hkept

private theorem SameRegistration.setReader {s s₁ : Client} {r : Reader}
    (hs : SameRegistration s s₁) (hdrains : r.drains = s₁.reader.drains)
    (hawaits : r.awaits = false) (hmessage : r.message = none) (hpassing : ∀ c st rest, r ≠ .passing c st rest)
    (hkeeps : ∀ m, s.reader.message = some m → isReply m → s.portal.registering.isSome →
      serialOf m ≠ s.portal.registering) :
    SameRegistration s (s₁.setReader r) := by
  refine ⟨hs.portal, hs.serial, hs.log, hdrains.trans hs.drains, ?_, ?_,
    fun m hm hreply hsome hserial => absurd hserial (hkeeps m hm hreply hsome),
    fun t c st hat => hs.threads t c st (at_setReader hpassing hat)⟩
  · intro hr
    exact absurd (hawaits.symm.trans hr) (by simp)
  · intro m hm
    exact absurd (hmessage.symm.trans hm) (by simp)

private theorem SameRegistration.setServing {s s₁ : Client} {via : Via} {th : Serving}
    (hs : SameRegistration s s₁)
    (hth : ∀ c st, th = .forwarding c st → st = .lookup ∧ c.via = via) :
    SameRegistration s (s₁.setServing via th) := by
  refine ⟨hs.portal, hs.serial, hs.log, hs.drains, hs.awaits, hs.message, hs.keeps, ?_⟩
  intro t c st hat
  cases t with
  | serving via' =>
      simp only [Client.At, Client.setServing] at hat
      split at hat
      · rename_i hvia
        obtain ⟨hst, hc⟩ := hth c st hat
        refine Or.inr ⟨hst, fun via'' hvia'' => ?_⟩
        cases hvia''
        rw [hc, hvia]
      · exact hs.threads _ c st hat
  | reader rest => exact hs.threads _ c st hat

private theorem SameRegistration.refl (s : Client) : SameRegistration s s :=
  ⟨rfl, Nat.le_refl _, ⟨[], rfl, by simp⟩, rfl, id, fun _ h => h, fun _ h _ _ _ => h,
    fun _ _ _ h => Or.inl h⟩

private theorem sameRegistration_answer (s : Client) (c : Call) (reply : Message) :
    SameRegistration s (s.answer c reply) := by
  refine sameRegistration_of rfl (Nat.le_refl _) rfl rfl ⟨[_], rfl, ?_⟩
  intro e he
  rw [List.mem_singleton] at he
  subst he
  split <;> rfl

private theorem SameRegistration.trans {s s₁ s₂ : Client} (h₁ : SameRegistration s s₁)
    (h₂ : SameRegistration s₁ s₂)
    (hnew : ∀ t c st, s₁.At t c st → s.At t c st) : SameRegistration s s₂ := by
  obtain ⟨es₁, hlog₁, hes₁⟩ := h₁.log
  obtain ⟨es₂, hlog₂, hes₂⟩ := h₂.log
  refine {
    portal := h₂.portal.trans h₁.portal, serial := Nat.le_trans h₁.serial h₂.serial,
    log := ⟨es₂ ++ es₁, by rw [hlog₂, hlog₁, List.append_assoc], ?log⟩,
    drains := h₂.drains.trans h₁.drains, awaits := fun hr => h₁.awaits (h₂.awaits hr),
    message := fun m hm => h₁.message m (h₂.message m hm), keeps := ?keeps, threads := ?threads }
  case log =>
    intro e he
    rcases List.mem_append.mp he with he | he
    · exact hes₂ e he
    · exact hes₁ e he
  case keeps =>
    intro m hm hreply hsome hserial
    have hm₁ := h₁.keeps m hm hreply hsome hserial
    rw [← h₁.portal] at hsome hserial
    exact h₂.keeps m hm₁ hreply hsome hserial
  case threads =>
    intro t c st hat
    rcases h₂.threads t c st hat with hat | hnew'
    · exact Or.inl (hnew t c st hat)
    · exact Or.inr hnew'

/-- A quiet step leaves the registration alone. -/
private theorem sameRegistration_of_quiet {s s' : Client} (hq : Quiet s s') :
    SameRegistration s s' := by
  have hbefore : s.reader.drains = false ∧ ∀ m, s.reader.message = some m → ¬ isReply m := by
    have hquiet := hq.before
    cases hr : s.reader with
    | received m fds =>
        rw [hr] at hquiet
        refine ⟨rfl, ?_⟩
        intro m' hm'
        cases hm'
        simpa [Reader.quiet] using hquiet
    | recv | signal m fds | deliver m fds | endRequests after | telling paths after
    | closeIfDone | done => exact ⟨rfl, by simp [Reader.message]⟩
    | _ =>
        rw [hr] at hquiet
        cases hquiet
  have hafter : s'.reader.drains = false ∧ s'.reader.awaits = false ∧ s'.reader.message = none ∧
      ∀ c st rest, s'.reader ≠ .passing c st rest := by
    have hsettled := hq.after
    cases hr : s'.reader <;> rw [hr] at hsettled <;>
      first | exact ⟨rfl, rfl, rfl, by simp⟩ | cases hsettled
  obtain ⟨hdrains, hawaits, hmessage, hpassing⟩ := hafter
  obtain ⟨es, hlog, hes⟩ := hq.log
  refine {
    portal := hq.portal, serial := hq.serial, log := ⟨es, hlog, ?log⟩,
    drains := hdrains.trans hbefore.1.symm, awaits := ?awaits, message := ?message,
    keeps := fun m hm hreply => absurd hreply (hbefore.2 m hm), threads := ?threads }
  case log =>
    intro e he
    have hclient := hes e he
    cases e <;> first | rfl | cases hclient
  case awaits =>
    intro hr
    exact absurd (hawaits.symm.trans hr) (by simp)
  case message =>
    intro m hm
    exact absurd (hmessage.symm.trans hm) (by simp)
  case threads =>
    intro t c st hat
    cases t with
    | serving via => exact Or.inl (by rwa [Client.At, hq.serving] at hat)
    | reader rest => exact absurd hat (hpassing c st rest)

/-! ## Section 4: Steps That Change the Portal State -/

/-- A step that keeps the identity and its owner: what it does to the rest of the
portal state is checked. -/
private theorem Registration.update {s s' : Client} (h : Registration s)
    (happ : s'.portal.appId = s.portal.appId) (howner : s'.portal.owner = s.portal.owner)
    (hserial : s.serial ≤ s'.serial)
    (hlog : ∃ es, s'.log = es ++ s.log ∧ ∀ e ∈ es, e.registers = false)
    (hfresh : ∀ n, s'.portal.registering = some n → n < s'.serial)
    (hawaits : s'.reader.awaits → s'.portal.registering.isSome) (hdraining : s'.portal.draining = s'.reader.drains)
    (hheld : s'.portal.held ≠ [] → s'.portal.registering.isSome ∨ s'.portal.draining)
    (hmessage : ∀ m, s'.reader.message = some m → m.sender.any senderName)
    (hnew : ∀ n, s'.portal.registering = some n → s.portal.registering = some n ∨ n = s.serial)
    (hkeeps : ∀ m, s.reader.message = some m → s'.reader.message = some m)
    (hthreads : ∀ t c st, s'.At t c st → s.At t c st)
    (halone : ∀ via c st, s'.At (.serving via) c st → c.toPortal → st.passed →
      s'.portal.registering = none ∧ s'.portal.draining = false) :
    Registration s' := by
  obtain ⟨es, hlog, hes⟩ := hlog
  refine {
    fresh := hfresh, replied := ?replied, awaits := hawaits, draining := hdraining, held := hheld,
    via := fun via c st hat => h.via via c st (hthreads _ c st hat), alone := halone,
    pinned := ?pinned, owner := ?owner, sender := hmessage, unanswered := ?unanswered }
  case replied =>
    intro n hn
    rw [hlog, replied_append hes] at hn
    exact Nat.lt_of_lt_of_le (h.replied n hn) hserial
  case pinned =>
    intro t c st hat hc
    have hpins := h.pinned t c st (hthreads t c st hat) hc
    cases st <;> first | trivial | simpa only [PortalState.Pins, happ, howner] using hpins
  case owner =>
    rw [howner]
    exact h.owner
  case unanswered =>
    intro n hn hreplied
    rw [hlog, replied_append hes] at hreplied
    rcases hnew n hn with hn | rfl
    · rcases h.unanswered n hn hreplied with ⟨u, hu, hlost⟩ | ⟨m, hm, hreply⟩
      · exact Or.inl ⟨u, hlog ▸ List.mem_append_right _ hu, hlost⟩
      · exact Or.inr ⟨m, hkeeps m hm, hreply⟩
    · exact absurd (h.replied _ hreplied) (Nat.lt_irrefl _)

/-- While calls are passed on or a registration is outstanding, no serving thread is
past the gate with a portal call. -/
private theorem Registration.no_passed {s : Client} (h : Registration s)
    (hbusy : s.portal.registering.isSome ∨ s.portal.draining) {via : Via} {c : Call} {st : Stage}
    (hat : s.At (.serving via) c st) (hc : c.toPortal) : st.passed = false := by
  by_contra hst
  obtain ⟨hnone, hfalse⟩ := h.alone via c st hat hc (by simpa using hst)
  rcases hbusy with hbusy | hbusy
  · rw [hnone] at hbusy
    cases hbusy
  · rw [hfalse] at hbusy
    cases hbusy

/-- A portal call comes on the portal's connection. -/
private theorem Call.via_of_toPortal {c : Call} (hc : c.toPortal) : c.via = .portal := by
  simp only [Call.toPortal, Bool.and_eq_true, beq_iff_eq] at hc
  exact hc.1

private theorem Registration.registerHeld {s : Client} (h : Registration s) {via : Via}
    {c : Call} {e : Event} (hat : s.At (.serving via) c .gate) (hportal : c.toPortal)
    (he : e.registers = false) :
    Registration ((((s.tick.setPortal { s.portal with registering := some s.serial }).note
      e).hold c).release (.serving via)) := by
  refine h.update rfl rfl (Nat.le_succ _) ⟨[e], rfl, by simpa using he⟩ ?_ ?_ ?_ ?_ h.sender ?_
    (fun _ hm => hm) ?_ ?_
  · intro n hn
    cases hn
    exact Nat.lt_succ_self _
  · intro _
    rfl
  · exact h.draining
  · intro _
    exact Or.inl rfl
  · intro n hn
    cases hn
    exact Or.inr rfl
  · intro t c' st hat'
    exact (at_release hat').2
  · intro via' c' st hat' hc' hst
    -- Only the portal's own thread has portal calls, and it is idle now.
    obtain ⟨hne, hat'⟩ := at_release hat'
    have hvia : c'.via = via' := h.via via' c' st hat'
    have hvia' : c.via = via := h.via via c .gate hat
    rw [Call.via_of_toPortal hc'] at hvia
    rw [Call.via_of_toPortal hportal] at hvia'
    exact absurd (by rw [← hvia, ← hvia']) hne

/-- A step of the reading thread while it passes on held calls. -/
private theorem Registration.updateDraining {s s' : Client} (h : Registration s)
    (hbusy : s.reader.drains) (happ : s'.portal.appId = s.portal.appId)
    (howner : s'.portal.owner = s.portal.owner) (hserial : s.serial ≤ s'.serial)
    (hlog : ∃ es, s'.log = es ++ s.log ∧ ∀ e ∈ es, e.registers = false)
    (hfresh : ∀ n, s'.portal.registering = some n → n < s'.serial)
    (hawaits : s'.reader.awaits → s'.portal.registering.isSome)
    (hmessage : s'.reader.message = none)
    (hnew : ∀ n, s'.portal.registering = some n → s.portal.registering = some n ∨ n = s.serial)
    (hdraining : s'.portal.draining = s'.reader.drains)
    (hheld : s'.portal.held ≠ [] → s'.portal.registering.isSome ∨ s'.portal.draining)
    (hserving : s'.serving = s.serving) (hreader : ∀ c st rest, s'.reader ≠ .passing c st rest) :
    Registration s' := by
  have hthreads : ∀ t c st, s'.At t c st → s.At t c st := by
    intro t c st hat
    cases t with
    | serving via => rwa [Client.At, hserving] at hat
    | reader rest => exact absurd hat (hreader c st rest)
  refine h.update happ howner hserial hlog hfresh hawaits hdraining hheld
    (fun m hm => absurd (hmessage.symm.trans hm) (by simp)) hnew ?_ hthreads ?_
  · intro m hm
    exact absurd ((Reader.message_of_drains hbusy).symm.trans hm) (by simp)
  intro via c st hat hc hst
  have hdrains : s.portal.draining := h.draining ▸ hbusy
  rw [h.no_passed (Or.inr hdrains) (hthreads _ c st hat) hc] at hst
  cases hst

/-- The reply to `Register` changes the identity while no call is past the gate. -/
private theorem Registration.answered {s : Client} (h : Registration s) {m : Message} {e : Event}
    {p : PortalState} (hreader : s.reader = .registered m)
    (hheld : p.registering = none ∧ p.draining = true)
    (hreplied : ∀ n, Replied (e :: s.log) n → Replied s.log n)
    (howner : ∀ o, p.owner = some o → senderName o) :
    Registration (((s.setPortal p).note e).setReader .drain) := by
  -- The reply is that to an outstanding `Register`: no serving thread is past the gate.
  have hbusy := h.awaits (by rw [hreader]; rfl)
  have hthreads : ∀ t c st, (((s.setPortal p).note e).setReader .drain).At t c st →
      c.toPortal → st.passed = false := by
    intro t c st hat hc
    cases t with
    | serving via =>
        have hat' : s.At (.serving via) c st := hat
        exact h.no_passed (Or.inl hbusy) hat' hc
    | reader rest => cases hat
  refine {
    fresh := ?fresh, replied := ?replied, awaits := (fun hr => by cases hr), draining := hheld.2,
    held := fun _ => Or.inr hheld.2, via := ?via, alone := ?alone, pinned := ?pinned,
    owner := howner, sender := (fun m hm => by cases hm), unanswered := ?unanswered }
  case fresh =>
    intro n hn
    have hn' : p.registering = some n := hn
    rw [hheld.1] at hn'
    cases hn'
  case replied =>
    intro n hn
    exact h.replied n (hreplied n hn)
  case via =>
    intro via c st hat
    exact h.via via c st hat
  case alone =>
    intro via c st hat hc hst
    rw [hthreads _ c st hat hc] at hst
    cases hst
  case pinned =>
    intro t c st hat hc
    have hst := hthreads t c st hat hc
    cases st <;> trivial
  case unanswered =>
    intro n hn
    have hn' : p.registering = some n := hn
    rw [hheld.1] at hn'
    cases hn'

/-! ## Section 5: Every Step Keeps It -/

theorem replied_note {e : Event} {log : List Event} (he : ∀ a, e ≠ .received a) (n : Nat)
    (h : Replied (e :: log) n) : Replied log n := by
  obtain ⟨a, ha, hreply⟩ := h
  rcases List.mem_cons.mp ha with heq | ha
  · exact absurd heq.symm (he a)
  · exact ⟨a, ha, hreply⟩

private theorem senderName_of_any {sender : Option String} {o : String}
    (hsender : sender.any senderName) (ho : sender = some o) : senderName o := by
  rw [ho] at hsender
  exact hsender

/-- The reading thread takes what it reads. -/
private theorem Registration.receives {s : Client} {a : Arrival} {r : Reader} (h : Registration s)
    (hbus : fromHostBus s a.header) (hrecv : s.reader = .recv) (hdrains : r.drains = false)
    (hawaits : r.awaits = false) (hpassing : ∀ c st rest, r ≠ .passing c st rest)
    (hmessage : ∀ m, r.message = some m → m = a.header)
    (hlost : r.message = some a.header ∨ ∀ n, serialOf a.header = some n →
      ∃ u, a = .undecodable u) :
    Registration ((s.note (.received a)).setReader r) := by
  simp only [fromHostBus, Bool.and_eq_true] at hbus
  have hdraining : s.portal.draining = r.drains := by
    rw [h.draining, hrecv, hdrains]
    rfl
  refine {
    fresh := h.fresh, replied := ?replied,
    awaits := fun hr => absurd (hawaits.symm.trans hr) (by simp), draining := hdraining,
    held := h.held, via := h.via, alone := h.alone,
    pinned := fun t c st hat => h.pinned t c st (at_setReader hpassing hat), owner := h.owner,
    sender := ?sender, unanswered := ?unanswered }
  case replied =>
    intro n hn
    rcases replied_received.mp hn with ⟨hreply, hserial⟩ | hn
    · have hlt : n < s.serial := by simpa [hreply, hserial] using hbus.2
      exact hlt
    · exact h.replied n hn
  case sender =>
    intro m hm
    rw [hmessage m hm]
    exact hbus.1
  case unanswered =>
    intro n hn hreplied
    rcases replied_received.mp hreplied with ⟨hreply, hserial⟩ | hreplied
    · rcases hlost with hm | hlost
      · exact Or.inr ⟨a.header, hm, hreply, hserial⟩
      · obtain ⟨u, rfl⟩ := hlost n hserial
        exact Or.inl ⟨u, List.mem_cons_self, hreply, hserial⟩
    · rcases h.unanswered n hn hreplied with ⟨u, hu, hlost⟩ | ⟨m, hm, _⟩
      · exact Or.inl ⟨u, List.mem_cons_of_mem _ hu, hlost⟩
      · rw [hrecv] at hm
        cases hm

theorem outgoing_destination (cfg : Setup) (c : Call) (dest : Option String)
    (args : Option (List Value)) : (outgoing cfg c dest args).destination = dest := by
  have hrewrite : ∀ (m : Message) (src dst : String),
      (rewritePaths m src dst).destination = m.destination := by
    intro m src dst
    obtain ⟨path, signature, body, heq⟩ := rewritePaths_eq m src dst
    rw [heq]
  unfold outgoing
  cases args <;> simp only <;> split <;> simp [hrewrite]

/-- A step of a thread that only notes an event that says nothing of the
registration. -/
private theorem sameRegistration_note (s : Client) {e : Event} (he : e.registers = false) :
    SameRegistration s (s.note e) :=
  sameRegistration_of rfl (Nat.le_refl _) rfl rfl ⟨[e], rfl, by simpa using he⟩

private theorem sameRegistration_tick (s : Client) : SameRegistration s s.tick :=
  sameRegistration_of rfl (Nat.le_succ _) rfl rfl ⟨[], rfl, by simp⟩

/-- A call that is held goes nowhere: it waits for the reply to `Register`. -/
private theorem Registration.holds {s : Client} (h : Registration s) {via : Via} (c : Call)
    (hwait : s.portal.registering.isSome ∨ s.portal.draining) :
    Registration ((s.hold c).release (.serving via)) := by
  refine h.update rfl rfl (Nat.le_refl _) ⟨[], rfl, by simp⟩ h.fresh h.awaits h.draining
    (fun _ => hwait) h.sender (fun _ => Or.inl) (fun _ hm => hm) (fun t c' st hat' => (at_release hat').2) ?_
  intro via' c' st hat' hc' hst
  exact h.alone via' c' st (at_release hat').2 hc' hst

/-- `Register` is sent again, by the thread that passes on what was held. -/
private theorem Registration.registerAgain {s : Client} (h : Registration s) {c : Call}
    {rest : List Call} {e : Event} (hat : s.At (.reader rest) c .gate) (he : e.registers = false) :
    Registration (((s.tick.setPortal { s.portal with registering := some s.serial }).note
      e).setReader (.handBack c rest)) := by
  have hdrains : s.reader.drains := by
    rw [show s.reader = _ from hat]
    rfl
  refine h.updateDraining hdrains rfl rfl (Nat.le_succ _) ⟨[e], rfl, by simpa using he⟩
    ?_ (fun _ => rfl) rfl ?_ ?_ (fun _ => Or.inl rfl) rfl (by simp [Client.setReader])
  · intro n hn
    cases hn
    exact Nat.lt_succ_self _
  · intro n hn
    cases hn
    exact Or.inr rfl
  · exact h.draining.trans hdrains

/-- The reading thread has a reply to `Register`, which is not handled yet. -/
private theorem Registration.matched {s : Client} (h : Registration s) {m : Message} {fds : List Fd}
    {n : Nat} (hreader : s.reader = .received m fds) (hregistering : s.portal.registering = some n) :
    Registration (s.setReader (.registered m)) := by
  refine h.update rfl rfl (Nat.le_refl _) ⟨[], rfl, by simp⟩ h.fresh
    (fun _ => by simp [Client.setReader, hregistering])
    (h.draining.trans (by rw [hreader]; rfl)) h.held (fun m hm => ?_)
    (fun _ => Or.inl) (fun m hm => ?_) (fun _ _ _ hat => at_setReader (by simp) hat)
    (fun via c st hat => h.alone via c st hat)
  · cases hm
    exact h.sender _ (by rw [hreader]; rfl)
  · rw [hreader] at hm
    cases hm
    rfl

/-- The reading thread takes up the next of the calls that were held. -/
private theorem sameRegistration_next {s : Client} {c : Call} {rest : List Call}
    (hreader : s.reader = .next (c :: rest)) :
    SameRegistration s (s.setReader (.passing c .lookup rest)) := by
  refine ⟨rfl, Nat.le_refl _, ⟨[], rfl, by simp⟩, by rw [hreader]; rfl,
    fun hr => (by cases hr), fun m hm => (by cases hm),
    (by simp [hreader, Reader.message]), ?_⟩
  intro t c' st hat
  cases t with
  | serving via => exact Or.inl hat
  | reader rest' =>
      cases hat
      exact Or.inr ⟨rfl, fun via hvia => by cases hvia⟩

/-- No step ends what holds of the registration. -/
theorem registration_effect {cfg : Setup} {s s' : Client} {a : Action} (h : Registration s)
    (heff : Effect cfg s a s') : Registration s' := by
  have hrefl := SameRegistration.refl s
  cases heff with
  -- What a serving thread reads, or a leave, is nothing of the registration.
  | readAnswered c reply hidle hid hvia hreply =>
      refine h.same (sameRegistration_of rfl (Nat.le_refl _) rfl rfl ⟨[_, .read c], rfl, ?_⟩)
      intro e he
      rcases List.mem_cons.mp he with rfl | he
      · split <;> rfl
      · rw [List.mem_singleton.mp he]
        rfl
  | readCall c hidle hid hvia =>
      have hnote : SameRegistration s (Client.note { s with calls := s.calls + 1 } (.read c)) :=
        sameRegistration_of rfl (Nat.le_refl _) rfl rfl ⟨[_], rfl, by simp [Event.registers]⟩
      refine h.same (hnote.setServing ?_)
      intro c' st hc'
      cases hc'
      exact ⟨rfl, hvia⟩
  | depart => exact h.same (sameRegistration_of rfl (Nat.le_refl _) rfl rfl ⟨[], rfl, by simp⟩)
  | leaveUnmapped => exact h
  | leave hidle =>
      have hunmap : SameRegistration s { s with mapped := false } :=
        sameRegistration_of rfl (Nat.le_refl _) rfl rfl ⟨[], rfl, by simp⟩
      exact h.same (hunmap.setServing fun c st hc => by cases hc)
  | goneSet hleaving =>
      have hgone : SameRegistration s { s with gone := true } :=
        sameRegistration_of rfl (Nat.le_refl _) rfl rfl ⟨[], rfl, by simp⟩
      exact h.same (hgone.setServing fun c st hc => by cases hc)
  | left hleft =>
      obtain ⟨shut, hshut, _⟩ := closeIfDone_eq s
      rw [hshut]
      have hclose : SameRegistration s { s with shut := shut } :=
        sameRegistration_of rfl (Nat.le_refl _) rfl rfl ⟨[], rfl, by simp⟩
      exact h.same (hclose.setServing fun c st hc => by cases hc)
  -- A call goes on or ends, with what its new place relies on.
  | found hat => exact h.goOn hrefl hat rfl rfl (fun _ => trivial) (fun _ hst => by cases hst)
  | elsewhere hat => exact h.same ((sameRegistration_note s rfl).release hat)
  | unanswerable text hat => exact h.same ((sameRegistration_answer s _ _).release hat)
  | notToPortal hat hportal =>
      exact h.goOn hrefl hat rfl rfl (fun hc => by simp [hportal] at hc)
        (fun hc => by simp [hportal] at hc)
  | heldBehind hat hportal hwait => exact h.holds _ hwait
  | noIdentity hat hportal hfree happ =>
      refine h.goOn hrefl hat rfl rfl (fun _ hsome => ?_) (fun _ _ ht => Or.inr (hfree ht))
      rw [happ] at hsome
      cases hsome
  | sameOwner hat hportal hfree happ howner =>
      exact h.goOn hrefl hat rfl rfl (fun _ _ => ⟨howner, rfl⟩) (fun _ _ ht => Or.inr (hfree ht))
  | registerFailed text hat | sendFailed text hat =>
      refine h.same (((sameRegistration_tick s).trans (sameRegistration_answer s.tick _ _)
        fun _ _ _ hat' => hat').release hat)
  | registerHeld app hat hportal hfree happ howner hsent => exact h.registerHeld hat hportal rfl
  | registerAgain app hat hportal => exact h.registerAgain hat rfl
  | identified hat =>
      refine h.goOn hrefl hat rfl rfl (fun hc happ => ?_) (fun _ _ _ => Or.inl rfl)
      exact ⟨happ, h.pinned _ _ _ hat hc happ⟩
  | allowed args file hat =>
      refine h.goOn (sameRegistration_note s rfl) hat rfl rfl (fun hc hid => ?_)
        (fun _ _ _ => Or.inl rfl)
      rw [outgoing_destination]
      exact h.pinned _ _ _ hat hc hid
  | answeredByPolicy reply hat hreply =>
      exact h.same (((sameRegistration_note s rfl).trans (sameRegistration_answer _ _ _)
        fun _ _ _ hat' => hat').release hat)
  | unlisted hat =>
      obtain ⟨openRequests, hunlist⟩ := unlist_eq s _ _
      rw [hunlist]
      have hsame : SameRegistration s { s with openRequests := openRequests } :=
        sameRegistration_of rfl (Nat.le_refl _) rfl rfl ⟨[], rfl, by simp⟩
      exact h.goOn hsame hat rfl rfl (fun hc hid => h.pinned _ _ _ hat hc hid)
        (fun _ _ _ => Or.inl rfl)
  | sent p hat hopen hexpects hcall hserial hvia =>
      exact h.same (SameRegistration.release
        (sameRegistration_of rfl (Nat.le_succ _) rfl rfl ⟨[_], rfl, by simp [Event.registers]⟩) hat)
  | sentNoReply hat hexpects =>
      exact h.same (SameRegistration.release
        (sameRegistration_of rfl (Nat.le_succ _) rfl rfl
          ⟨[_, _], rfl, by simp [Event.registers]⟩) hat)
  -- What comes from the host may be the reply that is waited for.
  | received hrecv hbus =>
      exact h.receives hbus hrecv rfl rfl (by simp) (fun m hm => by cases hm; rfl) (Or.inl rfl)
  | receivedUndecodable n hrecv hbus hserial =>
      exact h.receives hbus hrecv rfl rfl (by simp) (fun m hm => by cases hm)
        (Or.inr fun _ _ => ⟨_, rfl⟩)
  | receivedUnknown hrecv hbus hserial =>
      exact h.receives hbus hrecv rfl rfl (by simp) (fun m hm => by cases hm)
        (Or.inr fun _ _ => ⟨_, rfl⟩)
  | close hrecv =>
      exact h.same (hrefl.setReader (by rw [hrecv]; rfl) rfl rfl (by simp)
        (by simp [hrecv, Reader.message]))
  | registerReply hreader hreply n hserial hregistering => exact h.matched hreader hregistering
  | otherReply hreader hreply hother =>
      refine h.same (hrefl.setReader (by rw [hreader]; rfl) rfl rfl (by simp) ?_)
      intro m hm _ hsome
      rw [hreader] at hm
      cases hm
      exact hother hsome
  -- The portal's answer: the calls that wait for it are passed on from here.
  | registerAccepted hreader hkind =>
      refine h.answered hreader ⟨rfl, rfl⟩ (replied_note (by simp)) ?_
      intro o ho
      exact senderName_of_any (h.sender _ (by rw [hreader]; rfl)) ho
  | registerRefused hreader hkind =>
      exact h.answered hreader ⟨rfl, rfl⟩ (replied_note (by simp)) (fun _ ho => by cases ho)
  | drained hreader hheld =>
      exact h.updateDraining (by rw [hreader]; rfl) rfl rfl (Nat.le_refl _) ⟨[], rfl, by simp⟩
        h.fresh (fun hr => by cases hr) rfl (fun _ => Or.inl) rfl (fun hne => absurd hheld hne) rfl
        (by simp [Client.setReader])
  | takesHeld hreader =>
      have hdrains : s.reader.drains := by rw [hreader]; rfl
      exact h.updateDraining hdrains rfl rfl (Nat.le_refl _) ⟨[], rfl, by simp⟩ h.fresh
        (fun hr => by cases hr) rfl (fun _ => Or.inl) (h.draining.trans hdrains) (fun hne => absurd rfl hne) rfl
        (by simp [Client.setReader])
  | passedOn hreader | unknownReply hreader _ =>
      exact h.same (hrefl.setReader (by rw [hreader]; rfl) rfl rfl (by simp)
        (by simp [hreader, Reader.message]))
  | passesNext c rest hreader => exact h.same (sameRegistration_next hreader)
  | handedBack c rest hreader =>
      have hregistering := h.awaits (by rw [hreader]; rfl)
      exact h.updateDraining (by rw [hreader]; rfl) rfl rfl (Nat.le_refl _) ⟨[], rfl, by simp⟩
        h.fresh (fun hr => by cases hr) rfl (fun _ => Or.inl) rfl (fun _ => Or.inl hregistering) rfl
        (by simp [Client.setReader])
  -- The rest is about the replies to other calls.
  | takesPending _ _ _ _ hreader _ _ | unmaps hreader | shutsDown hreader | drainsPending hreader =>
      exact h.same (SameRegistration.setReader
        (sameRegistration_of rfl (Nat.le_refl _) rfl rfl ⟨[], rfl, by simp⟩)
        (by simp [Reader.drains, hreader]) rfl rfl (by simp) (by simp [hreader, Reader.message]))
  | replyToGone hreader _ | replyRelayed hreader =>
      exact h.same ((sameRegistration_note s rfl).setReader (by simp [Client.note, hreader,
        Reader.drains]) rfl rfl (by simp) (by simp [hreader, Reader.message]))
  | failsToGone hreader _ | fails hreader =>
      exact h.same (SameRegistration.setReader
        (sameRegistration_of rfl (Nat.le_refl _) rfl rfl ⟨_, rfl, by simp [Event.registers]⟩)
        (by simp [Reader.drains, hreader]) rfl rfl (by simp) (by simp [hreader, Reader.message]))
  | quiet hquiet => exact h.same (sameRegistration_of_quiet hquiet)

theorem registration_step {cfg : Setup} {s s' : Client} {a : Action} (h : Registration s)
    (hstep : step cfg s a = some s') : Registration s' :=
  registration_effect h (step_effect hstep)

theorem registration_initial {serial : Nat} {appId owner : Option String}
    {owners : List (String × String)} {log : List Event} (howner : ∀ o, owner = some o → senderName o)
    (hlog : ∀ n, ¬ Replied log n) : Registration (initial serial appId owner owners log) := by
  have hidle : ∀ t c st, ¬ (initial serial appId owner owners log).At t c st := by
    intro t c st hat
    cases t <;> cases hat
  exact ⟨(fun n hn => by cases hn), fun n hn => absurd hn (hlog n), (fun hr => by cases hr),
    rfl, fun hheld => absurd rfl hheld, fun _ c st hat => absurd hat (hidle _ c st),
    fun _ c st hat => absurd hat (hidle _ c st), fun t c st hat => absurd hat (hidle t c st),
    howner, (fun m hm => by cases hm), (fun n hn => by cases hn)⟩

theorem not_replied_nil (n : Nat) : ¬ Replied [] n := by
  simp [Replied]

/-! ## Section 6: Held Calls Are Released -/

/-- `registering` and `held` follow the host's replies: once `Register` is answered
the reading thread acts on the answer, and what is held waits for an answer or is
being passed on. -/
structure HeldFollowsRegister (s : Client) : Prop where
  answered : ∀ n, s.portal.registering = some n → Replied s.log n →
    ∃ m, s.reader.message = some m ∧ isReply m ∧ serialOf m = some n
  held : s.portal.held ≠ [] → s.portal.registering.isSome ∨ s.reader.drains
  released : s.portal.held ≠ [] → s.reader = .recv →
    ∃ n, s.portal.registering = some n ∧ ¬ Replied s.log n

/-- The message read from the host is no reply to the outstanding `Register` that
cannot be decoded. -/
def RegisterReplyDecodes (s : Client) (a : Action) : Prop :=
  ∀ u, a = .receive (.undecodable u) → isReply u.message → s.portal.registering.isSome →
    serialOf u.message ≠ s.portal.registering

@[simp] theorem portal_goOn (s : Client) (t : Thread) (c : Call) (st : Stage) :
    (s.goOn t c st).portal = s.portal := by
  cases t <;> rfl

@[simp] theorem portal_release (s : Client) (t : Thread) : (s.release t).portal = s.portal := by
  cases t <;> rfl

/-- A registration that is outstanding after a step was so before it, or was sent in
the step, which then read nothing. -/
private theorem registering_effect {cfg : Setup} {s s' : Client} {a : Action} {n : Nat}
    (heff : Effect cfg s a s') (hn : s'.portal.registering = some n) :
    s.portal.registering = some n ∨ (n = s.serial ∧ ∀ b, a ≠ .receive b) := by
  cases heff with
  | found _ | notToPortal _ _ | noIdentity _ _ _ _ | sameOwner _ _ _ _ _ | identified _
  | allowed _ _ _ => exact Or.inl (by rwa [portal_goOn] at hn)
  | elsewhere _ | unanswerable _ _ | registerFailed _ _ | answeredByPolicy _ _ _ | sendFailed _ _
  | sent _ _ _ _ _ _ _ | sentNoReply _ _ => exact Or.inl (by rwa [portal_release] at hn)
  | unlisted _ =>
      obtain ⟨openRequests, hunlist⟩ := unlist_eq s _ _
      rw [portal_goOn, hunlist] at hn
      exact Or.inl hn
  | quiet hquiet => exact Or.inl (hquiet.portal ▸ hn)
  | registerHeld _ _ _ _ _ _ _ | registerAgain _ _ _ =>
      cases hn
      exact Or.inr ⟨rfl, by simp⟩
  | registerAccepted _ _ | registerRefused _ _ => cases hn
  | left _ =>
      obtain ⟨shut, hshut, _⟩ := closeIfDone_eq s
      rw [hshut] at hn
      exact Or.inl hn
  | _ => exact Or.inl hn

/-- The outstanding `Register` was not answered by what cannot be decoded. -/
private def NotLost (s : Client) : Prop :=
  ∀ n, s.portal.registering = some n → ¬ Lost s.log n

private theorem notLost_step {cfg : Setup} {s s' : Client} {a : Action} (h : Registration s)
    (hlost : NotLost s) (hdecodes : RegisterReplyDecodes s a) (hstep : step cfg s a = some s') :
    NotLost s' := by
  have heff := step_effect hstep
  obtain ⟨es, hlog, hes⟩ := effect_log heff
  rintro n hn ⟨u, hu, hreply, hserial⟩
  rw [hlog] at hu
  rcases List.mem_append.mp hu with hu | hu
  · have hreceive := hes _ hu
    rcases registering_effect heff hn with hn' | hother
    · exact hdecodes u hreceive hreply (by simp [hn']) (hserial.trans hn'.symm)
    · exact hother.2 _ hreceive
  · rcases registering_effect heff hn with hn' | hnew
    · exact hlost n hn' ⟨u, hu, hreply, hserial⟩
    · have hlt := h.replied n ⟨.undecodable u, hu, hreply, hserial⟩
      exact absurd hnew.1 (Nat.ne_of_lt hlt)

private theorem followsRegister_of {s : Client} (h : Registration s) (hlost : NotLost s) :
    HeldFollowsRegister s := by
  have hanswered : ∀ n, s.portal.registering = some n → Replied s.log n →
      ∃ m, s.reader.message = some m ∧ isReply m ∧ serialOf m = some n :=
    fun n hn hreplied => (h.unanswered n hn hreplied).resolve_left (hlost n hn)
  refine ⟨hanswered, h.draining ▸ h.held, ?_⟩
  intro hheld hrecv
  have hidle : s.portal.draining = false := by rw [h.draining, hrecv]; rfl
  have hsome : s.portal.registering.isSome := by simpa [hidle] using h.held hheld
  obtain ⟨n, hn⟩ := Option.isSome_iff_exists.mp hsome
  refine ⟨n, hn, fun hreplied => ?_⟩
  obtain ⟨m, hm, _⟩ := hanswered n hn hreplied
  rw [hrecv] at hm
  cases hm

/-- Whatever the interleaving, no portal call stays held once the host has answered
`Register`, as long as its answer decodes. -/
theorem registered_once_answered (cfg : Setup) (serial : Nat) (appId owner : Option String)
    (owners : List (String × String)) (howner : ∀ o, owner = some o → senderName o)
    (as : List Action) (s : Client)
    (hdecodes : StepsMeet (step cfg) RegisterReplyDecodes (initial serial appId owner owners) as)
    (hrun : run (step cfg) (initial serial appId owner owners) as = some s) :
    HeldFollowsRegister s := by
  have hinit : Registration (initial serial appId owner owners) ∧
      NotLost (initial serial appId owner owners) :=
    ⟨registration_initial howner not_replied_nil, fun n hn => by cases hn⟩
  have hkeep : ∀ s a s', (Registration s ∧ NotLost s) → RegisterReplyDecodes s a →
      step cfg s a = some s' → Registration s' ∧ NotLost s' := by
    intro s a s' hinv hmeets hstep
    exact ⟨registration_step hinv.1 hstep, notLost_step hinv.1 hinv.2 hmeets hstep⟩
  obtain ⟨h, hlost⟩ := run_invariant_of_meets hkeep hinit hdecodes hrun
  exact followsRegister_of h hlost

/-! A client that was registered with `:1.5` calls the portal, whose name `:1.7` has
taken meanwhile. -/

def exampleSetup : Setup :=
  { name := ":1.3", unique := ":1.1", talk := fun _ => "", privateSeg := "1_3",
    hostSeg := "1_9", introspection := "" }

def settingsCall : Message :=
  { kind := Kind.methodCall, serial := 9, path := some portalPath,
    interface := some "org.freedesktop.portal.Settings", member := some "ReadAll",
    destination := some portalName, sender := some ":1.3" }

/-- The client of a portal that has restarted. -/
def restarted : Client :=
  initial 2 (some "org.example.App") (some ":1.5") [(portalName, ":1.7")]

/-- The new portal's answer to the client's `Register`. -/
def registerReturn : Message :=
  { kind := Kind.methodReturn, replySerial := some 2, sender := some ":1.7" }

/-- The call is held for a `Register` with the serial 2. -/
def untilRegister : List Action :=
  [.read .portal (.message settingsCall []), .serve .portal {}, .serve .portal {}]

theorem registered_once_answered_restarted :
    ∃ s, run (step exampleSetup) restarted
        (untilRegister ++ [.receive (.message registerReturn []), .relay {}, .relay {}]) = some s ∧
      HeldFollowsRegister s := by
  have hsome : (run (step exampleSetup) restarted
      (untilRegister ++ [.receive (.message registerReturn []), .relay {}, .relay {}])).isSome := by
    decide
  obtain ⟨s, hs⟩ := Option.isSome_iff_exists.mp hsome
  refine ⟨s, hs, registered_once_answered _ _ _ _ _ (by decide) _ s ?_ hs⟩
  refine stepsMeet_of_forall ?_ _
  intro a ha s u hu
  simp only [untilRegister, List.cons_append, List.nil_append, List.mem_cons, List.not_mem_nil,
    or_false] at ha
  subst hu
  simp at ha

/-- An answer that cannot be decoded releases nothing: the call is held for a
`Register` that was answered. -/
theorem held_after_undecodable_reply :
    ∃ s, run (step exampleSetup) restarted
        (untilRegister ++ [.receive (.undecodable ⟨registerReturn, .truncatedValue⟩), .relay {}]) =
          some s ∧
      ¬ HeldFollowsRegister s := by
  have hrun : ((run (step exampleSetup) restarted
      (untilRegister ++ [.receive (.undecodable ⟨registerReturn, .truncatedValue⟩), .relay {}])).map
        fun s => (s.portal.registering, decide (Replied s.log 2), s.reader.message)) =
      some (some 2, true, none) := by
    decide
  obtain ⟨s, hs, hstate⟩ := Option.map_eq_some_iff.mp hrun
  simp only [Prod.mk.injEq, decide_eq_true_eq] at hstate
  obtain ⟨hregistering, hreplied, hmessage⟩ := hstate
  refine ⟨s, hs, fun h => ?_⟩
  obtain ⟨m, hm, _⟩ := h.answered 2 hregistering hreplied
  rw [hmessage] at hm
  cases hm

end Psbox.Gateway
