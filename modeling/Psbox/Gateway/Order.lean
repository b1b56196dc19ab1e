import Psbox.Foundations.Pipeline
import Psbox.Gateway.Answers

/-!
# Portal Calls Keep Their Order

The calls of a client to the portal form a pipeline: they arrive when they are read,
are started when they are judged, and are finished when they are sent to the host.
A call that waits is in the hands of the reading thread that passes held calls on, in
`held`, or with the serving thread that has just read it; in this order.

The serving thread starts a call only when the two others are empty, which is the
exclusion of `Registration`.

## Main results

* `step_moves`: every step of the client is a step of the pipeline.
* `portal_calls_in_order`: no portal call overtakes another, whatever the
  interleaving.
-/

namespace Psbox.Gateway

open Psbox.DBus Psbox.Portal Psbox.Foundations

/-! ## Section 1: The Portal Calls of a Client -/

namespace Event

/-- The portal call that was read. -/
def readCall : Event → Option Call
  | read c => if c.toPortal then some c else none
  | _ => none

/-- The portal call that was judged. -/
def judgedCall : Event → Option Call
  | judged c _ => if c.toPortal then some c else none
  | _ => none

/-- The portal call that was sent to the host. -/
def sentCall : Event → Option Call
  | sent c _ _ _ _ => if c.toPortal then some c else none
  | _ => none

/-- The events that are none of these, for any call. -/
def passive : Event → Bool
  | read _ | judged _ _ | sent _ _ _ _ _ => false
  | _ => true

end Event

/-- What `f` finds in the log, oldest first. -/
def history (f : Event → Option Call) (log : List Event) : List Call :=
  (log.filterMap f).reverse

/-- The call was judged and is to be sent. -/
def Stage.judged : Stage → Bool
  | unlist _ _ _ | send _ _ _ => true
  | _ => false

namespace Serving

/-- A portal call that the thread has and that is yet to be judged. -/
def waiting : Serving → List Call
  | forwarding c st => if c.toPortal && !st.judged then [c] else []
  | _ => []

/-- A portal call that the thread has and that was judged. -/
def underway : Serving → List Call
  | forwarding c st => if c.toPortal && st.judged then [c] else []
  | _ => []

end Serving

namespace Reader

/-- The held calls in the reading thread's hands that are yet to be judged. -/
def heldCalls : Reader → List Call
  | next rest => rest
  | passing c st rest => if st.judged then rest else c :: rest
  | handBack c rest => c :: rest
  | _ => []

/-- The held call that was judged. -/
def underway : Reader → List Call
  | passing c st _ => if st.judged then [c] else []
  | _ => []

end Reader

namespace Client

/-- The portal calls yet to be judged. -/
def waiting (s : Client) : List Call :=
  s.reader.heldCalls ++ s.portal.held ++ (s.serving .portal).waiting

/-- The portal calls judged and yet to be sent. -/
def underway (s : Client) : List Call :=
  s.reader.underway ++ (s.serving .portal).underway

/-- The portal calls of the client as a pipeline. -/
def pipeline (s : Client) : Pipeline Call where
  arrived := history Event.readCall s.log
  waiting := s.waiting
  started := history Event.judgedCall s.log
  underway := s.underway
  finished := history Event.sentCall s.log

end Client

/-! ## Section 2: What Steps Leave Alone -/

theorem history_cons (f : Event → Option Call) (e : Event) (log : List Event) :
    history f (e :: log) = history f log ++ (f e).toList := by
  cases he : f e <;> simp [history, he]

/-- Events that `f` does not look for leave the history as it is. -/
theorem history_append {f : Event → Option Call} {es : List Event} (hes : ∀ e ∈ es, f e = none)
    (log : List Event) : history f (es ++ log) = history f log := by
  have hnone : es.filterMap f = [] := List.filterMap_eq_nil_iff.mpr hes
  simp [history, List.filterMap_append, hnone]

/-- Nothing was logged that starts or ends the passage of a call. -/
def LogsPassively (log log' : List Event) : Prop :=
  ∃ es, log' = es ++ log ∧ ∀ e ∈ es, e.passive

theorem LogsPassively.refl (log : List Event) : LogsPassively log log :=
  ⟨[], rfl, by simp⟩

theorem LogsPassively.cons {e : Event} {log log' : List Event} (h : LogsPassively log log')
    (he : e.passive) : LogsPassively log (e :: log') := by
  obtain ⟨es, hlog, hes⟩ := h
  refine ⟨e :: es, by rw [hlog]; rfl, ?_⟩
  intro e' he'
  rcases List.mem_cons.mp he' with rfl | he'
  · exact he
  · exact hes e' he'

theorem LogsPassively.answer {s : Client} {log : List Event} (h : LogsPassively log s.log)
    (c : Call) (reply : Message) : LogsPassively log (s.answer c reply).log := by
  refine h.cons ?_
  split <;> rfl

/-- The histories of what is read, judged and sent are as before. -/
theorem LogsPassively.histories {log log' : List Event} (h : LogsPassively log log') :
    history Event.readCall log' = history Event.readCall log ∧
      history Event.judgedCall log' = history Event.judgedCall log ∧
      history Event.sentCall log' = history Event.sentCall log := by
  obtain ⟨es, rfl, hes⟩ := h
  have hkeep : ∀ f : Event → Option Call, (∀ e, e.passive → f e = none) →
      history f (es ++ log) = history f log :=
    fun f hf => history_append (fun e he => hf e (hes e he)) log
  refine ⟨hkeep _ ?_, hkeep _ ?_, hkeep _ ?_⟩ <;> intro e he <;>
    cases e <;> first | rfl | cases he

@[simp] theorem waiting_note (s : Client) (e : Event) : (s.note e).waiting = s.waiting := rfl
@[simp] theorem underway_note (s : Client) (e : Event) : (s.note e).underway = s.underway := rfl
@[simp] theorem waiting_tick (s : Client) : s.tick.waiting = s.waiting := rfl
@[simp] theorem underway_tick (s : Client) : s.tick.underway = s.underway := rfl

section Threads

variable {s : Client} {t : Thread} {c : Call} {st : Stage}

/-- A thread that goes on with its call, judged or not as before, leaves what waits
and what is underway. -/
theorem goOn_lists (hat : s.At t c st) (st' : Stage) (hjudged : st'.judged = st.judged) :
    (s.goOn t c st').waiting = s.waiting ∧ (s.goOn t c st').underway = s.underway := by
  cases t with
  | serving via =>
      have hserving : s.serving via = .forwarding c st := hat
      by_cases hvia : via = .portal
      · subst hvia
        simp [Client.goOn, Client.waiting, Client.underway, Client.setServing, hserving,
          Serving.waiting, Serving.underway, hjudged]
      · have hne : ¬ Via.portal = via := fun h => hvia h.symm
        simp [Client.goOn, Client.waiting, Client.underway, Client.setServing, hne]
  | reader rest =>
      have hreader : s.reader = .passing c st rest := hat
      simp [Client.goOn, Client.waiting, Client.underway, Client.setReader, hreader,
        Reader.heldCalls, Reader.underway, hjudged]

/-- A serving thread that has a portal call past the gate has it alone. -/
theorem alone_of_passed {via : Via} (h : Registration s) (hat : s.At (.serving via) c st)
    (hportal : c.toPortal) (hpassed : st.passed) :
    via = .portal ∧ s.portal.held = [] ∧ s.reader.heldCalls = [] ∧ s.reader.underway = [] := by
  obtain ⟨hregistering, hdraining⟩ := h.alone via c st hat hportal hpassed
  have hvia : via = .portal := by
    have hc := h.via via c st hat
    simp only [Call.toPortal, Bool.and_eq_true, beq_iff_eq] at hportal
    exact hc.symm.trans hportal.1
  have hheld : s.portal.held = [] := by
    by_contra hne
    simpa [hregistering, hdraining] using h.held hne
  have hdrains : s.reader.drains = false := h.draining.symm.trans hdraining
  refine ⟨hvia, hheld, ?_, ?_⟩ <;> revert hdrains <;>
    cases s.reader <;> simp [Reader.drains, Reader.heldCalls, Reader.underway]

/-- While held calls are passed on, the serving thread has judged none. -/
theorem serving_underway_of_drains (h : Registration s) (hdrains : s.reader.drains) :
    (s.serving .portal).underway = [] := by
  cases hserving : s.serving .portal with
  | forwarding c st =>
      by_cases hc : c.toPortal && st.judged
      · obtain ⟨hportal, hjudged⟩ := Bool.and_eq_true_iff.mp hc
        have hpassed : st.passed := by cases st <;> first | rfl | cases hjudged
        obtain ⟨_, hdraining⟩ := h.alone .portal c st hserving hportal hpassed
        rw [h.draining, hdrains] at hdraining
        cases hdraining
      · simp [Serving.underway, hc]
  | _ => rfl

/-- A portal call that is about to be judged is the first of those that wait, and
nothing is underway. -/
theorem lists_of_judge (h : Registration s) (hat : s.At t c st) (hportal : c.toPortal)
    (hpassed : st.passed) (hjudged : st.judged = false) :
    s.waiting = c :: (s.release t).waiting ∧ s.underway = [] ∧ (s.release t).underway = [] := by
  cases t with
  | serving via =>
      obtain ⟨rfl, hheld, hcalls, hnone⟩ := alone_of_passed h hat hportal hpassed
      have hserving : s.serving .portal = .forwarding c st := hat
      simp [Client.waiting, Client.underway, Client.release, Client.setServing, hserving, hheld,
        hcalls, hnone, Serving.waiting, Serving.underway, hportal, hjudged]
  | reader rest =>
      have hreader : s.reader = .passing c st rest := hat
      have hserving := serving_underway_of_drains h (by rw [hreader]; rfl)
      simp [Client.waiting, Client.underway, Client.release, Client.setReader, hreader, hserving,
        Reader.heldCalls, Reader.underway, hjudged]

/-- A portal call that was judged is the only one underway. -/
theorem lists_of_judged (h : Registration s) (hat : s.At t c st) (hportal : c.toPortal)
    (hjudged : st.judged) :
    s.underway = [c] ∧ (s.release t).underway = [] ∧ (s.release t).waiting = s.waiting := by
  have hpassed : st.passed := by cases st <;> first | rfl | cases hjudged
  cases t with
  | serving via =>
      obtain ⟨rfl, hheld, hcalls, hnone⟩ := alone_of_passed h hat hportal hpassed
      have hserving : s.serving .portal = .forwarding c st := hat
      simp [Client.waiting, Client.underway, Client.release, Client.setServing, hserving, hheld,
        hcalls, hnone, Serving.waiting, Serving.underway, hportal, hjudged]
  | reader rest =>
      have hreader : s.reader = .passing c st rest := hat
      have hserving := serving_underway_of_drains h (by rw [hreader]; rfl)
      simp [Client.waiting, Client.underway, Client.release, Client.setReader, hreader, hserving,
        Reader.heldCalls, Reader.underway, hjudged]

/-- A thread that is done with another call leaves the lists alone. -/
theorem release_lists_of_not (hat : s.At t c st) (hserving : ∃ via, t = .serving via)
    (hportal : c.toPortal = false) :
    (s.release t).waiting = s.waiting ∧ (s.release t).underway = s.underway := by
  obtain ⟨via, rfl⟩ := hserving
  have hat' : s.serving via = .forwarding c st := hat
  by_cases hvia : via = .portal
  · subst hvia
    simp [Client.waiting, Client.underway, Client.release, Client.setServing, hat',
      Serving.waiting, Serving.underway, hportal]
  · have hne : ¬ Via.portal = via := fun h => hvia h.symm
    simp [Client.waiting, Client.underway, Client.release, Client.setServing, hne]

/-- A thread that is done with a call that was not judged takes it, at most, from
those that wait. -/
theorem lists_of_release (h : Registration s) (hat : s.At t c st) (hjudged : st.judged = false) :
    (s.release t).underway = s.underway ∧
      ((s.release t).waiting = s.waiting ∨
        ∃ before after, s.waiting = before ++ c :: after ∧
          (s.release t).waiting = before ++ after) := by
  cases t with
  | serving via =>
      cases hportal : c.toPortal with
      | false =>
          obtain ⟨hwaiting, hunderway⟩ := release_lists_of_not hat ⟨via, rfl⟩ hportal
          exact ⟨hunderway, Or.inl hwaiting⟩
      | true =>
          have hserving : s.serving via = .forwarding c st := hat
          have hvia : via = .portal := by
            have hc := h.via via c st hat
            simp only [Call.toPortal, Bool.and_eq_true, beq_iff_eq] at hportal
            exact hc.symm.trans hportal.1
          subst hvia
          refine ⟨?_, Or.inr ⟨s.reader.heldCalls ++ s.portal.held, [], ?_, ?_⟩⟩
          · simp [Client.underway, Client.release, Client.setServing, hserving,
              Serving.underway, hjudged]
          · simp [Client.waiting, hserving, Serving.waiting, hportal, hjudged]
          · simp [Client.waiting, Client.release, Client.setServing, Serving.waiting]
  | reader rest =>
      have hreader : s.reader = .passing c st rest := hat
      refine ⟨?_, Or.inr ⟨[], rest ++ s.portal.held ++ (s.serving .portal).waiting, ?_, ?_⟩⟩
      · simp [Client.underway, Client.release, Client.setReader, hreader, Reader.underway, hjudged]
      · simp [Client.waiting, hreader, Reader.heldCalls, hjudged]
      · simp [Client.waiting, Client.release, Client.setReader, Reader.heldCalls]

end Threads

/-! ## Section 3: Steps of the Pipeline -/

section Moves

variable {s s' : Client} {t : Thread} {c : Call} {st : Stage}

theorem moves_same (hlog : LogsPassively s.log s'.log) (hwaiting : s'.waiting = s.waiting)
    (hunderway : s'.underway = s.underway) : Pipeline.Step s.pipeline s'.pipeline := by
  obtain ⟨hread, hjudged, hsent⟩ := hlog.histories
  have hnow : s'.pipeline = s.pipeline := by
    simp only [Client.pipeline, hread, hjudged, hsent, hwaiting, hunderway]
  rw [hnow]
  exact .same _

/-- A call is read, and goes to the end of those that wait or nowhere. -/
theorem moves_read (hlog : LogsPassively (.read c :: s.log) s'.log)
    (hwaiting : s'.waiting = s.waiting ∨ (c.toPortal ∧ s'.waiting = s.waiting ++ [c]))
    (hunderway : s'.underway = s.underway) : Pipeline.Step s.pipeline s'.pipeline := by
  obtain ⟨hread, hjudged, hsent⟩ := hlog.histories
  simp only [history_cons, Event.judgedCall, Event.sentCall, Option.toList_none,
    List.append_nil] at hjudged hsent
  have hnow : s'.pipeline =
      { s.pipeline with
        arrived := s.pipeline.arrived ++ (if c.toPortal then [c] else []),
        waiting := s'.waiting } := by
    simp only [Client.pipeline, hjudged, hsent, hunderway, hread, history_cons, Event.readCall]
    cases c.toPortal <;> rfl
  rw [hnow]
  rcases hwaiting with hwaiting | ⟨hportal, hwaiting⟩
  · rw [hwaiting]
    cases hportal : c.toPortal with
    | true => exact .turnedAway s.pipeline c
    | false =>
        rw [if_neg Bool.false_ne_true, List.append_nil]
        exact .same s.pipeline
  · rw [hwaiting, if_pos hportal]
    exact .arrives s.pipeline c

/-- A step in which a thread is done with a call that was not judged. -/
theorem moves_released (h : Registration s) (hat : s.At t c st) (hjudged : st.judged = false)
    (hlog : LogsPassively s.log s'.log) (hwaiting : s'.waiting = (s.release t).waiting)
    (hunderway : s'.underway = (s.release t).underway) :
    Pipeline.Step s.pipeline s'.pipeline := by
  obtain ⟨hunder, hwait⟩ := lists_of_release h hat hjudged
  rcases hwait with hwait | ⟨before, after, hbefore, hafter⟩
  · exact moves_same hlog (hwaiting.trans hwait) (hunderway.trans hunder)
  · obtain ⟨hread, hjudged, hsent⟩ := hlog.histories
    have hnow : s'.pipeline = { s.pipeline with waiting := before ++ after } := by
      simp only [Client.pipeline, hread, hjudged, hsent, hwaiting, hafter, hunderway, hunder]
    rw [hnow]
    exact .dropped s.pipeline before c after hbefore

/-- A step that judges a call: the call is to be sent, or the thread is done with it. -/
theorem moves_judged {identified : Bool} (h : Registration s) (hat : s.At t c st)
    (hpassed : st.passed) (hjudged : st.judged = false) (hcalls : ∀ c ∈ s.waiting, c.toPortal)
    (hlog : LogsPassively (.judged c identified :: s.log) s'.log)
    (hwaiting : s'.waiting = (s.release t).waiting)
    (hunderway : s'.underway = (s.release t).underway ∨
      (c.toPortal ∧ s'.underway = [c]) ∨ (c.toPortal = false ∧ s'.underway = s.underway)) :
    Pipeline.Step s.pipeline s'.pipeline := by
  obtain ⟨hread, hstarted, hsent⟩ := hlog.histories
  simp only [history_cons, Event.readCall, Event.sentCall, Event.judgedCall, Option.toList_none,
    List.append_nil] at hread hsent hstarted
  cases hportal : c.toPortal with
  | true =>
      obtain ⟨hfirst, hnone, hleft⟩ := lists_of_judge h hat hportal hpassed hjudged
      have hnow : s'.pipeline =
          { s.pipeline with
            waiting := (s.release t).waiting, started := s.pipeline.started ++ [c],
            underway := s'.underway } := by
        simp only [Client.pipeline, hread, hsent, hstarted, hwaiting, hportal]
        rfl
      rw [hnow]
      rcases hunderway with hunderway | ⟨_, hunderway⟩ | ⟨hnot, _⟩
      · have hstep := Pipeline.Step.rejects s.pipeline c (s.release t).waiting hfirst hnone
        have hempty : s.pipeline.underway = [] := hnone
        rw [hempty] at hstep
        rw [hunderway, hleft]
        exact hstep
      · rw [hunderway]
        exact .starts s.pipeline c _ hfirst hnone
      · rw [hportal] at hnot
        cases hnot
  | false =>
      cases t with
      | reader rest =>
          -- The reading thread has only portal calls.
          have hreader : s.reader = .passing c st rest := hat
          have hmem : c ∈ s.waiting := by
            simp [Client.waiting, hreader, Reader.heldCalls, hjudged]
          rw [hcalls c hmem] at hportal
          cases hportal
      | serving via =>
          obtain ⟨hwait, hunder⟩ := release_lists_of_not hat ⟨via, rfl⟩ hportal
          have hsame : s'.underway = s.underway := by
            rcases hunderway with hunderway | ⟨hyes, _⟩ | ⟨_, hunderway⟩
            · exact hunderway.trans hunder
            · rw [hportal] at hyes
              cases hyes
            · exact hunderway
          have hnow : s'.pipeline = s.pipeline := by
            simp only [Client.pipeline, hread, hsent, hstarted, hwaiting, hwait, hsame, hportal]
            simp
          rw [hnow]
          exact .same _

/-- What a thread with a call that was judged leaves when it is done: of a portal call
the pipeline without it underway, of another call the same pipeline. -/
theorem lists_of_done (h : Registration s) (hat : s.At t c st) (hjudged : st.judged)
    (hcalls : ∀ c ∈ s.underway, c.toPortal) :
    (s.release t).waiting = s.waiting ∧
      (c.toPortal → s.underway = [c] ∧ (s.release t).underway = []) ∧
      (c.toPortal = false → (s.release t).underway = s.underway) := by
  cases hportal : c.toPortal with
  | true =>
      obtain ⟨hone, hnone, hsame⟩ := lists_of_judged h hat hportal hjudged
      exact ⟨hsame, fun _ => ⟨hone, hnone⟩, (fun hnot => by cases hnot)⟩
  | false =>
      cases t with
      | reader rest =>
          have hreader : s.reader = .passing c st rest := hat
          have hmem : c ∈ s.underway := by
            simp [Client.underway, hreader, Reader.underway, hjudged]
          rw [hcalls c hmem] at hportal
          cases hportal
      | serving via =>
          obtain ⟨hwait, hunder⟩ := release_lists_of_not hat ⟨via, rfl⟩ hportal
          exact ⟨hwait, (fun hyes => by cases hyes), fun _ => hunder⟩

/-- A step in which a call that was judged is sent. -/
theorem moves_sent {identified : Bool} {file : Option FileRequest} {serial : Nat} {out : Message}
    (h : Registration s) (hat : s.At t c st) (hjudged : st.judged)
    (hcalls : ∀ c ∈ s.underway, c.toPortal)
    (hlog : LogsPassively (.sent c identified file serial out :: s.log) s'.log)
    (hwaiting : s'.waiting = (s.release t).waiting)
    (hunderway : s'.underway = (s.release t).underway) :
    Pipeline.Step s.pipeline s'.pipeline := by
  obtain ⟨hread, hstarted, hsent⟩ := hlog.histories
  simp only [history_cons, Event.readCall, Event.sentCall, Event.judgedCall, Option.toList_none,
    List.append_nil] at hread hsent hstarted
  obtain ⟨hwait, hone, hother⟩ := lists_of_done h hat hjudged hcalls
  cases hportal : c.toPortal with
  | true =>
      obtain ⟨hone, hnone⟩ := hone hportal
      have hnow : s'.pipeline =
          { s.pipeline with underway := [], finished := s.pipeline.finished ++ [c] } := by
        simp only [Client.pipeline, hread, hsent, hstarted, hwaiting, hwait, hunderway, hnone,
          hportal]
        rfl
      rw [hnow]
      exact .finishes s.pipeline c hone
  | false =>
      have hnow : s'.pipeline = s.pipeline := by
        simp only [Client.pipeline, hread, hsent, hstarted, hwaiting, hwait, hunderway,
          hother hportal, hportal]
        simp
      rw [hnow]
      exact .same _

/-- A step in which a call that was judged could not be sent. -/
theorem moves_unsent (h : Registration s) (hat : s.At t c st) (hjudged : st.judged)
    (hcalls : ∀ c ∈ s.underway, c.toPortal) (hlog : LogsPassively s.log s'.log)
    (hwaiting : s'.waiting = (s.release t).waiting)
    (hunderway : s'.underway = (s.release t).underway) :
    Pipeline.Step s.pipeline s'.pipeline := by
  obtain ⟨hread, hstarted, hsent⟩ := hlog.histories
  obtain ⟨hwait, hone, hother⟩ := lists_of_done h hat hjudged hcalls
  cases hportal : c.toPortal with
  | true =>
      obtain ⟨hone, hnone⟩ := hone hportal
      have hnow : s'.pipeline = { s.pipeline with underway := [] } := by
        simp only [Client.pipeline, hread, hsent, hstarted, hwaiting, hwait, hunderway, hnone]
      rw [hnow]
      exact .fails s.pipeline c hone
  | false => exact moves_same hlog (hwaiting.trans hwait) (hunderway.trans (hother hportal))

end Moves

/-- A serving thread takes up or puts down no portal call. -/
private theorem setServing_lists (s : Client) {via : Via} (th : Serving)
    (hbefore : (s.serving via).waiting = [] ∧ (s.serving via).underway = [])
    (hafter : th.waiting = [] ∧ th.underway = []) :
    (s.setServing via th).waiting = s.waiting ∧ (s.setServing via th).underway = s.underway := by
  by_cases hvia : via = .portal
  · subst hvia
    simp [Client.waiting, Client.underway, Client.setServing, hbefore, hafter]
  · have hne : ¬ Via.portal = via := fun h => hvia h.symm
    simp [Client.waiting, Client.underway, Client.setServing, hne]

/-- The reading thread goes on, and it and `held` have the calls they had before. -/
private theorem moves_reader {s s' : Client} (hlog : LogsPassively s.log s'.log)
    (hserving : s'.serving = s.serving)
    (hcalls : s'.reader.heldCalls ++ s'.portal.held = s.reader.heldCalls ++ s.portal.held)
    (hunderway : s'.reader.underway = s.reader.underway) :
    Pipeline.Step s.pipeline s'.pipeline := by
  refine moves_same hlog ?_ ?_
  · rw [Client.waiting, hcalls, hserving]
    rfl
  · rw [Client.underway, hunderway, hserving]
    rfl

/-- A serving thread that has a portal call is the portal's, and puts it behind the
held ones. -/
private theorem hold_lists {s s₁ : Client} {via : Via} {c : Call} {st : Stage}
    (h : Registration s) (hat : s.At (.serving via) c st) (hportal : c.toPortal)
    (hjudged : st.judged = false) (hreader : s₁.reader = s.reader)
    (hheld : s₁.portal.held = s.portal.held) :
    ((s₁.hold c).release (.serving via)).waiting = s.waiting ∧
      ((s₁.hold c).release (.serving via)).underway = s.underway := by
  have hserving : s.serving via = .forwarding c st := hat
  have hvia : via = .portal := by
    have hc := h.via via c st hat
    simp only [Call.toPortal, Bool.and_eq_true, beq_iff_eq] at hportal
    exact hc.symm.trans hportal.1
  subst hvia
  simp [Client.waiting, Client.underway, Client.release, Client.setServing, Client.hold,
    Client.setPortal, hserving, hreader, hheld, Serving.waiting, Serving.underway, hportal, hjudged]

private theorem reader_lists_of_settled {r : Reader} (h : r.settled) :
    r.heldCalls = [] ∧ r.underway = [] := by
  cases r <;> first | exact ⟨rfl, rfl⟩ | cases h

private theorem reader_lists_of_quiet {r : Reader} (h : r.quiet) :
    r.heldCalls = [] ∧ r.underway = [] := by
  cases r <;> first | exact ⟨rfl, rfl⟩ | cases h

/-- A call that was read and is passed on waits, when it is for the portal, behind the
others. -/
private theorem read_lists {s : Client} {via : Via} {c : Call} (hidle : s.serving via = .idle)
    (hvia : c.via = via) :
    ((s.setServing via (.forwarding c .lookup)).waiting = s.waiting ∨
      (c.toPortal ∧ (s.setServing via (.forwarding c .lookup)).waiting = s.waiting ++ [c])) ∧
      (s.setServing via (.forwarding c .lookup)).underway = s.underway := by
  have hbefore : (s.serving via).waiting = [] ∧ (s.serving via).underway = [] := by
    rw [hidle]
    exact ⟨rfl, rfl⟩
  cases hportal : c.toPortal with
  | false =>
      obtain ⟨hwait, hunder⟩ := setServing_lists s (.forwarding c .lookup) hbefore
        (by simp [Serving.waiting, Serving.underway, hportal])
      exact ⟨Or.inl hwait, hunder⟩
  | true =>
      have hisPortal : via = .portal := by
        simp only [Call.toPortal, Bool.and_eq_true, beq_iff_eq] at hportal
        exact hvia.symm.trans hportal.1
      subst hisPortal
      refine ⟨Or.inr ⟨rfl, ?_⟩, ?_⟩
      · simp [Client.waiting, Client.setServing, hidle, Serving.waiting, hportal, Stage.judged]
      · simp [Client.underway, Client.setServing, hidle, Serving.underway, Stage.judged]

/-- The thread of a call that was judged and is to be sent. -/
private theorem allowed_lists {s : Client} {t : Thread} {c : Call} {st : Stage} (st' : Stage)
    (h : Registration s) (hat : s.At t c st) (hpassed : st.passed) (hjudged : st.judged = false)
    (hjudged' : st'.judged) (hcalls : ∀ c ∈ s.waiting, c.toPortal) :
    (s.goOn t c st').waiting = (s.release t).waiting ∧
      ((c.toPortal ∧ (s.goOn t c st').underway = [c]) ∨
        (c.toPortal = false ∧ (s.goOn t c st').underway = s.underway)) := by
  cases hportal : c.toPortal with
  -- A call to the portal was the first of those that wait.
  | true =>
      obtain ⟨_, _, hleft⟩ := lists_of_judge h hat hportal hpassed hjudged
      cases t with
      | serving via =>
          obtain ⟨rfl, hheld, hnone, hunder⟩ := alone_of_passed h hat hportal hpassed
          refine ⟨?_, Or.inl ⟨rfl, ?_⟩⟩
          · simp [Client.waiting, Client.goOn, Client.release, Client.setServing, Serving.waiting,
              hjudged']
          · simp [Client.underway, Client.goOn, Client.setServing, Serving.underway, hunder,
              hportal, hjudged']
      | reader rest =>
          have hserving : (s.serving .portal).underway = [] := (List.append_eq_nil_iff.mp hleft).2
          refine ⟨?_, Or.inl ⟨rfl, ?_⟩⟩
          · simp [Client.waiting, Client.goOn, Client.release, Client.setReader, Reader.heldCalls,
              hjudged']
          · simp [Client.underway, Client.goOn, Client.setReader, Reader.underway, hserving,
              hjudged']
  -- Another call is in neither list.
  | false =>
      cases t with
      | reader rest =>
          have hreader : s.reader = .passing c st rest := hat
          have hmem : c ∈ s.waiting := by
            simp [Client.waiting, hreader, Reader.heldCalls, hjudged]
          rw [hcalls c hmem] at hportal
          cases hportal
      | serving via =>
          obtain ⟨hwait, hunder⟩ := release_lists_of_not hat ⟨via, rfl⟩ hportal
          refine ⟨?_, Or.inr ⟨rfl, ?_⟩⟩
          · by_cases hvia : via = .portal
            · subst hvia
              simp [Client.waiting, Client.goOn, Client.release, Client.setServing,
                Serving.waiting, hportal]
            · have hne : ¬ Via.portal = via := fun h => hvia h.symm
              simp [Client.waiting, Client.goOn, Client.release, Client.setServing, hne]
          · rw [← hunder]
            by_cases hvia : via = .portal
            · subst hvia
              simp [Client.underway, Client.goOn, Client.release, Client.setServing,
                Serving.underway, hportal]
            · have hne : ¬ Via.portal = via := fun h => hvia h.symm
              simp [Client.underway, Client.goOn, Client.release, Client.setServing, hne]

private theorem moves_effect {cfg : Setup} {s s' : Client} {a : Action} (h : Registration s)
    (hwaits : ∀ c ∈ s.waiting, c.toPortal) (hunder : ∀ c ∈ s.underway, c.toPortal)
    (heff : Effect cfg s a s') : Pipeline.Step s.pipeline s'.pipeline := by
  have hrefl := LogsPassively.refl s.log
  cases heff with
  | readAnswered c reply hidle hid hvia hreply =>
      exact moves_read ((LogsPassively.refl (.read c :: s.log)).answer
        (s := Client.note { s with calls := s.calls + 1 } (.read c)) c reply) (Or.inl rfl) rfl
  | readCall c hidle hid hvia =>
      have hlists := read_lists (s := Client.note { s with calls := s.calls + 1 } (.read c)) hidle
        hvia
      exact moves_read (.refl _) hlists.1 hlists.2
  | depart | leaveUnmapped => exact moves_same hrefl rfl rfl
  | leave hidle =>
      obtain ⟨hwaiting, hunderway⟩ := setServing_lists { s with mapped := false }
        .leaving (by rw [hidle]; exact ⟨rfl, rfl⟩) ⟨rfl, rfl⟩
      exact moves_same hrefl hwaiting hunderway
  | goneSet hleaving =>
      obtain ⟨hwaiting, hunderway⟩ := setServing_lists { s with gone := true }
        .left (by rw [hleaving]; exact ⟨rfl, rfl⟩) ⟨rfl, rfl⟩
      exact moves_same hrefl hwaiting hunderway
  | left hleft =>
      obtain ⟨shut, hshut, _⟩ := closeIfDone_eq s
      rw [hshut]
      obtain ⟨hwaiting, hunderway⟩ := setServing_lists { s with shut := shut }
        .idle (by rw [hleft]; exact ⟨rfl, rfl⟩) ⟨rfl, rfl⟩
      exact moves_same hrefl hwaiting hunderway
  | found hat =>
      obtain ⟨hwaiting, hunderway⟩ := goOn_lists hat (.gate) rfl
      exact moves_same (by rw [log_goOn]; exact hrefl) hwaiting hunderway
  | notToPortal hat _ | noIdentity hat _ _ _ | sameOwner hat _ _ _ _ =>
      obtain ⟨hwaiting, hunderway⟩ := goOn_lists hat (.identify _) rfl
      exact moves_same (by rw [log_goOn]; exact hrefl) hwaiting hunderway
  | identified hat =>
      obtain ⟨hwaiting, hunderway⟩ := goOn_lists hat (.judge _ _) rfl
      exact moves_same (by rw [log_goOn]; exact hrefl) hwaiting hunderway
  | @unlisted _ t c identified file out hat =>
      obtain ⟨openRequests, hunlist⟩ := unlist_eq s c out
      rw [hunlist]
      have hat' : Client.At { s with openRequests := openRequests } t c
          (.unlist identified file out) := by cases t <;> exact hat
      obtain ⟨hwaiting, hunderway⟩ := goOn_lists hat' (.send identified file out) rfl
      exact moves_same (by rw [log_goOn]; exact hrefl) hwaiting hunderway
  | @elsewhere _ t c hat =>
      refine moves_released h hat rfl ?_ ?_ ?_
      · rw [log_release]
        exact hrefl.cons rfl
      all_goals cases t <;> rfl
  | @unanswerable _ t c text hat =>
      refine moves_released h hat rfl ?_ ?_ ?_
      · rw [log_release]
        exact hrefl.answer c _
      all_goals cases t <;> rfl
  | @registerFailed _ t c text hat =>
      refine moves_released h hat rfl ?_ ?_ ?_
      · rw [log_release]
        exact LogsPassively.answer (s := s.tick) hrefl c _
      all_goals cases t <;> rfl
  | heldBehind hat hportal _ =>
      obtain ⟨hwaiting, hunderway⟩ := hold_lists h hat hportal rfl rfl rfl
      exact moves_same hrefl hwaiting hunderway
  | registerHeld app hat hportal _ _ _ _ =>
      obtain ⟨hwaiting, hunderway⟩ := hold_lists h hat hportal rfl rfl rfl
      exact moves_same (hrefl.cons rfl) hwaiting hunderway
  | @registerAgain _ c rest app hat _ =>
      have hreader : s.reader = .passing c .gate rest := hat
      refine moves_same (hrefl.cons rfl) ?_ ?_
      · simp [Client.waiting, Client.setReader, Client.note, Client.setPortal, Client.tick, hreader,
          Reader.heldCalls, Stage.judged]
      · simp [Client.underway, Client.setReader, Client.note, Client.setPortal, Client.tick, hreader,
          Reader.underway, Stage.judged]
  | @allowed _ t c dest identified args file hat =>
      obtain ⟨hwaiting, hunderway⟩ := allowed_lists
        (.unlist identified file (outgoing cfg c dest args)) h hat rfl rfl rfl hwaits
      have hlog : LogsPassively (.judged c identified :: s.log)
          (((s.note (.judged c identified)).goOn t c
            (.unlist identified file (outgoing cfg c dest args))).log) := by
        rw [log_goOn]
        exact .refl _
      refine moves_judged h hat rfl rfl hwaits hlog ?_ (Or.inr ?_)
      · cases t <;> exact hwaiting
      · cases t <;> exact hunderway
  | @answeredByPolicy _ t c dest identified reply hat hreply =>
      have hlog : LogsPassively (.judged c identified :: s.log)
          ((((s.note (.judged c identified)).answer c reply).release t).log) := by
        rw [log_release]
        exact LogsPassively.answer (s := s.note (.judged c identified)) (.refl _) c reply
      refine moves_judged h hat rfl rfl hwaits hlog ?_ (Or.inl ?_)
      all_goals cases t <;> rfl
  | @sendFailed _ t c identified file out text hat =>
      refine moves_unsent h hat rfl hunder ?_ ?_ ?_
      · rw [log_release]
        exact LogsPassively.answer (s := s.tick) hrefl c _
      all_goals cases t <;> rfl
  | @sent _ t c identified file out p hat _ _ _ _ _ =>
      refine moves_sent h hat rfl hunder (by rw [log_release]; exact .refl _) ?_ ?_
      all_goals cases t <;> rfl
  | @sentNoReply _ t c identified file out hat _ =>
      have hlog : LogsPassively (.sent c identified file s.serial out :: s.log)
          ((((s.tick.note (.sent c identified file s.serial out)).note
            (.finished c .noReply)).release t).log) := by
        rw [log_release]
        exact (LogsPassively.refl _).cons rfl
      refine moves_sent h hat rfl hunder hlog ?_ ?_
      all_goals cases t <;> rfl
  -- From here on the reading thread goes from one place to another.
  | received hread _ | receivedUndecodable _ hread _ _ | receivedUnknown hread _ _
  | registerAccepted hread _ | registerRefused hread _ | replyToGone hread _ | replyRelayed hread =>
      refine moves_reader (hrefl.cons rfl) rfl ?_ ?_
      · simp [Client.setReader, Client.note, Client.setPortal, hread, Reader.heldCalls]
      · simp [Client.setReader, Client.note, Client.setPortal, hread, Reader.underway]
  | close hread | registerReply hread _ _ _ _ | otherReply hread _ _ | passedOn hread
  | passesNext _ _ hread | unknownReply hread _ | takesPending _ _ _ _ hread _ _ | unmaps hread
  | shutsDown hread | drainsPending hread | drained hread _ | takesHeld hread
  | handedBack _ _ hread =>
      refine moves_reader hrefl rfl ?_ ?_
      · simp [Client.setReader, Client.setPortal, hread, Reader.heldCalls, Stage.judged]
      · simp [Client.setReader, Client.setPortal, hread, Reader.underway, Stage.judged]
  | failsToGone hread _ | fails hread =>
      refine moves_reader ⟨_, rfl, ?_⟩ rfl ?_ ?_
      · intro e he
        obtain ⟨p, _, rfl⟩ := List.mem_map.mp he
        rfl
      · simp [Client.setReader, hread, Reader.heldCalls]
      · simp [Client.setReader, hread, Reader.underway]
  | quiet hquiet =>
      obtain ⟨es, hlog, hes⟩ := hquiet.log
      obtain ⟨hcalls, hunderway⟩ := reader_lists_of_quiet hquiet.before
      obtain ⟨hcalls', hunderway'⟩ := reader_lists_of_settled hquiet.after
      refine moves_reader ⟨es, hlog, ?_⟩ hquiet.serving ?_ ?_
      · intro e he
        have hclient := hes e he
        cases e <;> first | rfl | cases hclient
      · rw [hcalls, hcalls', hquiet.portal]
      · rw [hunderway, hunderway']

/-! ## Section 4: The Order of a Run -/

/-- Every step of a client is a step of its pipeline of portal calls. -/
theorem step_moves {cfg : Setup} {s s' : Client} {a : Action} (h : Registration s)
    (hwaits : ∀ c ∈ s.waiting, c.toPortal) (hunder : ∀ c ∈ s.underway, c.toPortal)
    (hstep : step cfg s a = some s') : Pipeline.Step s.pipeline s'.pipeline :=
  moves_effect h hwaits hunder (step_effect hstep)

/-- The portal calls of a client are passed on in the order they were read. -/
structure CallsInOrder (cfg : Setup) (s : Client) : Prop where
  /-- They are judged in the order they were read, each at most once, and those that
  wait come after those that were judged. -/
  judged : (history Event.judgedCall s.log ++ s.waiting).Sublist (history Event.readCall s.log)
  /-- They are sent in the order they were judged, each at most once. -/
  sent : (history Event.sentCall s.log ++ s.underway).Sublist (history Event.judgedCall s.log)
  /-- Calls are numbered in the order they are read. -/
  numbered : (history Event.readCall s.log).Pairwise fun c d => c.id < d.id
  /-- A call that arrives goes behind all that wait, and no step changes the order of
  those. -/
  steps : ∀ a s', step cfg s a = some s' → Pipeline.Step s.pipeline s'.pipeline
  /-- Held calls that a new registration stops are held again, before later ones. -/
  handedBack : ∀ c rest ch s', s.reader = .handBack c rest → step cfg s (.relay ch) = some s' →
    s'.portal.held = c :: rest ++ s.portal.held ∧ s'.reader = .recv

private theorem mem_history {f : Event → Option Call} {log : List Event} {c : Call} :
    c ∈ history f log ↔ ∃ e ∈ log, f e = some c := by
  rw [history, List.mem_reverse, List.mem_filterMap]

/-- The portal calls in the log are those that were read on the portal connection. -/
private theorem mem_readCalls {log : List Event} {c : Call} :
    c ∈ history Event.readCall log ↔ .read c ∈ log ∧ c.toPortal := by
  rw [mem_history]
  constructor
  · rintro ⟨e, hmem, he⟩
    cases e with
    | read c' =>
        by_cases hportal : c'.toPortal
        · simp only [Event.readCall, if_pos hportal, Option.some.injEq] at he
          subst he
          exact ⟨hmem, hportal⟩
        · simp only [Event.readCall, if_neg hportal] at he
          cases he
    | _ => cases he
  · rintro ⟨hmem, hportal⟩
    exact ⟨_, hmem, by simp [Event.readCall, hportal]⟩

private theorem history_append_log (f : Event → Option Call) (es log : List Event) :
    history f (es ++ log) = history f log ++ history f es := by
  simp [history, List.filterMap_append]

/-- What holds of a client's portal calls between steps. -/
structure Ordered (s : Client) : Prop where
  registration : Registration s
  accounted : Accounted s
  inOrder : s.pipeline.InOrder
  numbered : (history Event.readCall s.log).Pairwise fun c d => c.id < d.id

namespace Ordered

variable {cfg : Setup} {s s' : Client} {a : Action}

theorem moves (h : Ordered s) (hstep : step cfg s a = some s') :
    Pipeline.Step s.pipeline s'.pipeline :=
  step_moves h.registration
    (fun _ hc => (mem_readCalls.mp (h.inOrder.mem_arrived_of_waiting hc)).2)
    (fun _ hc => (mem_readCalls.mp (h.inOrder.mem_arrived_of_underway hc)).2) hstep

theorem step (h : Ordered s) (hstep : step cfg s a = some s') : Ordered s' := by
  have heff := step_effect hstep
  obtain ⟨es, hlog, hes⟩ := effect_log heff
  refine ⟨registration_step h.registration hstep, accounted_effect h.accounted heff,
    h.inOrder.step (h.moves hstep), ?_⟩
  have hold : ∀ c ∈ history Event.readCall s.log, c.id < s.calls :=
    fun c hc => h.accounted.ids c (mem_readCalls.mp hc).1
  have hnew : ∀ c ∈ history Event.readCall es, c.id = s.calls :=
    fun c hc => (hes _ (mem_readCalls.mp hc).1).1
  -- A step reads one call at most.
  have hone : history Event.readCall es = [] ∨ ∃ c, history Event.readCall es = [c] := by
    have hreads : history Event.readCall s'.log =
        history Event.readCall s.log ++ history Event.readCall es := by
      rw [hlog, history_append_log]
    rcases (h.moves hstep).arrived with hsame | ⟨c, hmore⟩
    · exact Or.inl (List.append_cancel_left_eq _ _ [] |>.mp
        ((hreads.symm.trans hsame).trans (List.append_nil _).symm))
    · exact Or.inr ⟨c, List.append_cancel_left (hreads.symm.trans hmore)⟩
  rw [hlog, history_append_log, List.pairwise_append]
  refine ⟨h.numbered, ?_, fun c hc d hd => ?_⟩
  · rcases hone with hnone | ⟨c, hc⟩
    · rw [hnone]
      exact List.Pairwise.nil
    · rw [hc]
      exact List.pairwise_singleton _ _
  · rw [hnew d hd]
    exact hold c hc

theorem initial {serial : Nat} {appId owner : Option String} {owners : List (String × String)}
    (howner : ∀ o, owner = some o → senderName o) :
    Ordered (Gateway.initial serial appId owner owners) := by
  have hempty : ∀ f : Event → Option Call,
      history f (Gateway.initial serial appId owner owners).log = [] := fun _ => rfl
  have hread := hempty Event.readCall
  have hjudged := hempty Event.judgedCall
  have hsent := hempty Event.sentCall
  refine {
    registration := registration_initial howner not_replied_nil,
    accounted := (answering_initial howner).accounted,
    inOrder := { started := ?started, finished := ?finished }, numbered := ?numbered }
  case started =>
    simp only [Client.pipeline, hread, hjudged]
    exact List.Sublist.refl _
  case finished =>
    simp only [Client.pipeline, hjudged, hsent]
    exact List.Sublist.refl _
  case numbered =>
    rw [hread]
    exact List.Pairwise.nil

end Ordered

/-- Whatever the interleaving of calls, replies to `Register`, changes of the portal's
owner and further registrations, the calls of a client to the portal are judged and
sent to the host in the order they were read. -/
theorem portal_calls_in_order (cfg : Setup) (serial : Nat) (appId owner : Option String)
    (owners : List (String × String)) (howner : ∀ o, owner = some o → senderName o)
    (as : List Action) (s : Client)
    (hrun : run (step cfg) (initial serial appId owner owners) as = some s) :
    CallsInOrder cfg s := by
  have h : Ordered s := run_invariant (fun _ _ _ hinv hstep => hinv.step hstep)
    (Ordered.initial howner) hrun
  refine ⟨h.inOrder.started, h.inOrder.finished, h.numbered, fun a s' => h.moves, ?_⟩
  intro c rest ch s' hreader hstep
  simp only [step, relayerStep, hreader, Option.some.injEq] at hstep
  subst hstep
  exact ⟨rfl, rfl⟩

/-- A second call arrives while the first is held; both are sent, in this order. -/
theorem portal_calls_in_order_restarted :
    ∃ s, run (step exampleSetup) restarted
        (untilRegister ++ untilRegister ++ .receive (.message registerReturn []) ::
          List.replicate 17 (.relay {})) = some s ∧
      (history Event.sentCall s.log).map Call.id = [0, 1] ∧ CallsInOrder exampleSetup s := by
  have hrun : (run (step exampleSetup) restarted
      (untilRegister ++ untilRegister ++ .receive (.message registerReturn []) ::
        List.replicate 17 (.relay {}))).any fun s =>
          (history Event.sentCall s.log).map Call.id == [0, 1] := by
    decide
  obtain ⟨s, hs, hsent⟩ := (Option.any_eq_true _ _).mp hrun
  exact ⟨s, hs, by simpa using hsent,
    portal_calls_in_order _ _ _ _ _ (by decide) _ s hs⟩

end Psbox.Gateway
