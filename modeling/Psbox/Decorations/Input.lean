import Mathlib.Data.List.Induction
import Mathlib.Logic.Function.Basic
import Psbox.Decorations.Bookkeeping

/-!
# Input Over Title Bars

What the bridge gets of the input on its surfaces and on the title bars between them
(`Focus::pass` of `decorations/proxy.rs`), compared with what Wayland has for the events of a
pointer, a touch screen, a drag and a tablet tool.

`Seat` is the protocol's side: which surface the input is over, and which touch points are down,
each with whether the bridge knows the surface. The filter keeps no more than one flag, one list
and what is pending, and lets through what a seat without the hidden surfaces would have sent
(`input_over_title_bars`).
-/

namespace Psbox.Decorations

/-! ## Section 1: What the Protocols Have -/

/-- An event of an input device. `hidden` is set when it names an object the bridge does not
know. -/
structure InputEvent where
  name : String
  hidden : Bool := false
  args : List BridgeArg := []
  deriving DecidableEq, Repr

/-- What an event is for the surface it is of. -/
inductive Part where
  | enter
  | leave
  /-- Between an enter and a leave. -/
  | within
  | down (id : Int)
  | up (id : Int)
  /-- Of a touch point that is down. -/
  | touch (id : Int)
  | cancel
  | frame
  /-- Of no surface. -/
  | apart
  deriving DecidableEq, Repr

/-- The events of the interfaces that have a focus. -/
def inputEvents (iface : String) (args : List BridgeArg) : List (String × Part) :=
  match iface with
  | "wl_pointer" =>
      [("enter", .enter), ("leave", .leave), ("motion", .within), ("button", .within),
        ("axis", .within), ("frame", .frame), ("axis_source", .within), ("axis_stop", .within),
        ("axis_discrete", .within), ("axis_value120", .within),
        ("axis_relative_direction", .within)]
  | "wl_touch" =>
      [("down", .down (int args 3)), ("up", .up (int args 2)), ("motion", .touch (int args 1)),
        ("frame", .frame), ("cancel", .cancel), ("shape", .touch (int args 0)),
        ("orientation", .touch (int args 0))]
  | "wl_data_device" =>
      [("data_offer", .apart), ("enter", .enter), ("leave", .leave), ("motion", .within),
        ("drop", .within), ("selection", .apart)]
  | "zwp_tablet_tool_v2" =>
      [("type", .apart), ("hardware_serial", .apart), ("hardware_id_wacom", .apart),
        ("capability", .apart), ("done", .apart), ("removed", .apart), ("proximity_in", .enter),
        ("proximity_out", .leave), ("down", .within), ("up", .within), ("motion", .within),
        ("pressure", .within), ("distance", .within), ("tilt", .within), ("rotation", .within),
        ("slider", .within), ("wheel", .within), ("button", .within), ("frame", .frame)]
  | _ => []

def InputEvent.part (iface : String) (e : InputEvent) : Option Part :=
  (inputEvents iface e.args).lookup e.name

/-- What the input of a device is over: the surface that was entered and those that touch points
went down on, each as whether it is hidden from the bridge. -/
structure Seat where
  entered : Option Bool := none
  touching : Int → Option Bool := fun _ => none

namespace Seat

/-- Whether the protocol has an event of this part now. -/
def Allows (seat : Seat) : Part → Prop
  | .enter => seat.entered = none
  | .leave | .within => seat.entered.isSome
  | .down id => seat.touching id = none
  | .up id | .touch id => (seat.touching id).isSome
  | .cancel | .frame | .apart => True

/-- The seat after an event, of a surface that is hidden or not when it is a new one. -/
def next (seat : Seat) (hidden : Bool) : Part → Seat
  | .enter => { seat with entered := some hidden }
  | .leave => { seat with entered := none }
  | .down id => { seat with touching := Function.update seat.touching id (some hidden) }
  | .up id => { seat with touching := Function.update seat.touching id none }
  | .cancel => { seat with touching := fun _ => none }
  | .within | .touch _ | .frame | .apart => seat

/-- Whether an event concerns what the bridge does not know: the surface that it is over, or
that its touch point is on, or an object that it names. -/
def hides (seat : Seat) (hidden : Bool) : Part → Bool
  | .enter | .down _ | .apart => hidden
  | .leave | .within => seat.entered == some true
  | .up id | .touch id => seat.touching id == some true
  | .cancel | .frame => false

/-- Nothing in place of a surface that is hidden. -/
def unhidden : Option Bool → Option Bool
  | some true => none
  | whose => whose

@[simp] theorem unhidden_none : unhidden none = none := rfl
@[simp] theorem unhidden_true : unhidden (some true) = none := rfl
@[simp] theorem unhidden_false : unhidden (some false) = some false := rfl

/-- The seat without the surfaces that are hidden. -/
def known (seat : Seat) : Seat where
  entered := unhidden seat.entered
  touching id := unhidden (seat.touching id)

end Seat

/-- Every event is one that the protocol has then. -/
def Conforming (iface : String) : Seat → List InputEvent → Prop
  | _, [] => True
  | seat, e :: es =>
      match e.part iface with
      | some part => seat.Allows part ∧ Conforming iface (seat.next e.hidden part) es
      | none => False

/-- The seat after the events. -/
def Seat.after (iface : String) : Seat → List InputEvent → Seat
  | seat, [] => seat
  | seat, e :: es =>
      match e.part iface with
      | some part => (seat.next e.hidden part).after iface es
      | none => seat

/-- The events that do not concern what is hidden. -/
def visible (iface : String) : Seat → List InputEvent → List InputEvent
  | _, [] => []
  | seat, e :: es =>
      match e.part iface with
      | some part =>
          let rest := visible iface (seat.next e.hidden part) es
          if seat.hides e.hidden part then rest else e :: rest
      | none => []

/-- Frames are left out when there is nothing since the frame before. -/
def settle : Bool → List InputEvent → List InputEvent
  | _, [] => []
  | pending, e :: es =>
      if e.name = "frame" then if pending then e :: settle false es else settle false es
      else e :: settle true es

/-! ## Section 2: What the Filter Does -/

def Focus.take (f : Focus) (iface : String) (e : InputEvent) : Focus × Bool :=
  f.pass iface e.name e.hidden e.args

/-- The focus of an object after these events. -/
def Focus.after (iface : String) (f : Focus) (es : List InputEvent) : Focus :=
  es.foldl (fun f e => (f.take iface e).1) f

/-- Whether an event is let through, after these. -/
def passes (iface : String) (before : List InputEvent) (e : InputEvent) : Bool :=
  ((Focus.after iface {} before).take iface e).2

/-- The events that are let through. -/
def passedFrom (iface : String) : Focus → List InputEvent → List InputEvent
  | _, [] => []
  | f, e :: es =>
      let out := f.take iface e
      if out.2 then e :: passedFrom iface out.1 es else passedFrom iface out.1 es

def passed (iface : String) (es : List InputEvent) : List InputEvent :=
  passedFrom iface {} es

/-- The filter by what an event is, before what is pending is noted. -/
def Focus.passesPart (f : Focus) (hidden : Bool) : Part → Focus × Bool
  | .enter => ({ f with hidden := hidden }, !hidden)
  | .leave => ({ f with hidden := false }, !f.hidden)
  | .within => (f, !f.hidden)
  | .down id => (if hidden then { f with touches := f.touches ++ [id] } else f, !hidden)
  | .up id => ({ f with touches := f.touches.filter (· ≠ id) }, !f.touches.contains id)
  | .touch id => (f, !f.touches.contains id)
  | .cancel => ({ f with touches := [] }, true)
  | .frame => ({ f with pending := false }, f.pending)
  | .apart => (f, !hidden)

private theorem mem_inputEvents {iface : String} {e : InputEvent} {part : Part}
    (h : e.part iface = some part) : (e.name, part) ∈ inputEvents iface e.args := by
  obtain ⟨before, after, heq, _⟩ := List.lookup_eq_some_iff.mp h
  rw [heq]
  exact List.mem_append_right _ List.mem_cons_self

/-- The names of the source decide what the protocols mean by them. -/
theorem passes_eq_passesPart {iface : String} {e : InputEvent} {part : Part}
    (h : e.part iface = some part) (f : Focus) :
    f.passes iface e.name e.hidden e.args = f.passesPart e.hidden part ∧
      (e.name = "frame" ↔ part = .frame) := by
  have hmem := mem_inputEvents h
  unfold inputEvents at hmem
  -- Each interface by its own list of events.
  split at hmem
  all_goals
    simp only [List.mem_cons, Prod.mk.injEq, List.not_mem_nil, or_false] at hmem
  · rcases hmem with ⟨hname, rfl⟩ | ⟨hname, rfl⟩ | ⟨hname, rfl⟩ | ⟨hname, rfl⟩ | ⟨hname, rfl⟩ |
      ⟨hname, rfl⟩ | ⟨hname, rfl⟩ | ⟨hname, rfl⟩ | ⟨hname, rfl⟩ | ⟨hname, rfl⟩ | ⟨hname, rfl⟩ <;>
      simp [hname, Focus.passes, Focus.passesPart]
  · rcases hmem with ⟨hname, rfl⟩ | ⟨hname, rfl⟩ | ⟨hname, rfl⟩ | ⟨hname, rfl⟩ | ⟨hname, rfl⟩ |
      ⟨hname, rfl⟩ | ⟨hname, rfl⟩ <;> simp [hname, Focus.passes, Focus.passesPart]
  · rcases hmem with ⟨hname, rfl⟩ | ⟨hname, rfl⟩ | ⟨hname, rfl⟩ | ⟨hname, rfl⟩ | ⟨hname, rfl⟩ |
      ⟨hname, rfl⟩ <;> simp [hname, Focus.passes, Focus.passesPart]
  · rcases hmem with ⟨hname, rfl⟩ | ⟨hname, rfl⟩ | ⟨hname, rfl⟩ | ⟨hname, rfl⟩ | ⟨hname, rfl⟩ |
      ⟨hname, rfl⟩ | ⟨hname, rfl⟩ | ⟨hname, rfl⟩ | ⟨hname, rfl⟩ | ⟨hname, rfl⟩ | ⟨hname, rfl⟩ |
      ⟨hname, rfl⟩ | ⟨hname, rfl⟩ | ⟨hname, rfl⟩ | ⟨hname, rfl⟩ | ⟨hname, rfl⟩ | ⟨hname, rfl⟩ |
      ⟨hname, rfl⟩ | ⟨hname, rfl⟩ <;> simp [hname, Focus.passes, Focus.passesPart, toolEvents]

/-! ## Section 3: The Filter Follows the Seat -/

/-- The flag and the list of a focus are what is hidden of the seat. -/
structure Focus.Follows (f : Focus) (seat : Seat) : Prop where
  entered : f.hidden ↔ seat.entered = some true
  touching : ∀ id, id ∈ f.touches ↔ seat.touching id = some true

private theorem follows_start : Focus.Follows {} {} :=
  ⟨by simp, by simp⟩

theorem Focus.Follows.contains {f : Focus} {seat : Seat} (h : f.Follows seat) (id : Int) :
    f.touches.contains id = (seat.touching id == some true) := by
  rw [Bool.eq_iff_iff, List.contains_iff_mem, h.touching id, beq_iff_eq]

theorem Focus.Follows.hidden {f : Focus} {seat : Seat} (h : f.Follows seat) :
    f.hidden = (seat.entered == some true) := by
  rw [Bool.eq_iff_iff, h.entered, beq_iff_eq]

/-- What the filter does with one event: a frame goes through when something is pending, and
everything else that is not hidden. -/
theorem follows_passesPart {f : Focus} {seat : Seat} (h : f.Follows seat) {part : Part}
    (hallowed : seat.Allows part) (hidden : Bool) :
    (f.passesPart hidden part).1.Follows (seat.next hidden part) ∧
      (f.passesPart hidden part).2 = (if part = .frame then f.pending else !seat.hides hidden part) ∧
      (f.passesPart hidden part).1.pending = if part = .frame then false else f.pending := by
  cases part with
  | enter =>
      exact ⟨⟨by simp [Focus.passesPart, Seat.next], h.touching⟩,
        by simp [Focus.passesPart, Seat.hides], rfl⟩
  | leave =>
      exact ⟨⟨by simp [Focus.passesPart, Seat.next], h.touching⟩,
        by simp [Focus.passesPart, Seat.hides, h.hidden], rfl⟩
  | within => exact ⟨h, by simp [Focus.passesPart, Seat.hides, h.hidden], rfl⟩
  | down id =>
      have hfree : id ∉ f.touches := by
        -- The protocol lets a touch point go down only where there is none.
        rw [h.touching id, show seat.touching id = none from hallowed]
        simp
      refine ⟨⟨?_, ?_⟩, by simp [Focus.passesPart, Seat.hides], ?_⟩
      · cases hidden <;> exact h.entered
      -- The touch point of the event, or another one.
      · intro id'
        by_cases hid : id' = id
        · subst hid
          cases hidden <;> simp [Focus.passesPart, Seat.next, hfree]
        · cases hidden <;> simp [Focus.passesPart, Seat.next, hid, h.touching id']
      · cases hidden <;> rfl
  | up id =>
      refine ⟨⟨h.entered, ?_⟩, by simp only [Focus.passesPart, Seat.hides, h.contains]; rfl, rfl⟩
      intro id'
      by_cases hid : id' = id
      · subst hid
        simp [Focus.passesPart, Seat.next]
      · simp [Focus.passesPart, Seat.next, hid, h.touching id']
  | touch id => exact ⟨h, by simp only [Focus.passesPart, Seat.hides, h.contains]; rfl, rfl⟩
  | cancel => exact ⟨⟨h.entered, by simp [Focus.passesPart, Seat.next]⟩, rfl, rfl⟩
  | frame => exact ⟨⟨h.entered, h.touching⟩, rfl, rfl⟩
  | apart => exact ⟨h, rfl, rfl⟩

/-- The same of the filter of the source, which also notes what is pending. -/
theorem follows_take {f : Focus} {seat : Seat} (h : f.Follows seat) {iface : String}
    {e : InputEvent} {part : Part} (hpart : e.part iface = some part) (hallowed : seat.Allows part) :
    (f.take iface e).1.Follows (seat.next e.hidden part) ∧
      (f.take iface e).2 = (if part = .frame then f.pending else !seat.hides e.hidden part) ∧
      (f.take iface e).1.pending =
        if part = .frame then false else f.pending || !seat.hides e.hidden part := by
  obtain ⟨heq, hframe⟩ := passes_eq_passesPart hpart f
  obtain ⟨hfollows, hout, hpending⟩ := follows_passesPart h hallowed e.hidden
  simp only [Focus.take, Focus.pass, heq, hout, ne_eq, hframe]
  by_cases hp : part = .frame
  -- A frame is never noted as pending, it ends what is.
  · simp only [hp, not_true_eq_false, and_false, if_false, if_true] at hfollows hpending ⊢
    exact ⟨hfollows, trivial, hpending⟩
  · simp only [hp, not_false_eq_true, and_true, if_false] at hpending ⊢
    cases hhides : seat.hides e.hidden part with
    | true => simpa using ⟨hfollows, hpending⟩
    | false => exact ⟨⟨hfollows.entered, hfollows.touching⟩, by simp⟩

private theorem passedFrom_eq {iface : String} {f : Focus} {seat : Seat} {es : List InputEvent}
    (h : f.Follows seat) (hconf : Conforming iface seat es) :
    passedFrom iface f es = settle f.pending (visible iface seat es) := by
  -- Induction over the events, the focus and the seat going on together.
  induction es generalizing f seat with
  | nil => rfl
  | cons e es ih =>
      rw [Conforming] at hconf
      cases hpart : e.part iface with
      | none =>
          rw [hpart] at hconf
          exact hconf.elim
      | some part =>
          rw [hpart] at hconf
          obtain ⟨hfollows, hout, hpending⟩ := follows_take h hpart hconf.1
          have hrest := ih hfollows hconf.2
          have hframe := (passes_eq_passesPart hpart f).2
          rw [passedFrom, visible, hpart]
          dsimp only
          rw [hrest, hout, hpending]
          by_cases hp : part = .frame
          · -- A frame is seen, and is let through when something is pending.
            have hname := hframe.mpr hp
            simp [hp, Seat.hides, settle, hname]
          · cases hhides : seat.hides e.hidden part with
            | true => simp [hp]
            | false => simp [hp, settle, hframe]

/-- A touch point that goes down or up changes no other. -/
theorem unhidden_update (touching : Int → Option Bool) (id : Int) (whose : Option Bool) :
    (fun id' => Seat.unhidden (Function.update touching id whose id')) =
      Function.update (fun id' => Seat.unhidden (touching id')) id (Seat.unhidden whose) := by
  funext id'
  by_cases hid : id' = id
  · simp [hid]
  · simp [hid]

private theorem unhidden_update_none {touching : Int → Option Bool} (id : Int) (whose : Option Bool)
    (h : Seat.unhidden (touching id) = Seat.unhidden whose) :
    (fun id' => Seat.unhidden (Function.update touching id whose id')) =
      fun id' => Seat.unhidden (touching id') := by
  rw [unhidden_update, ← h]
  exact Function.update_eq_self _ _

/-- Without what is hidden, the protocol has the events too. -/
theorem known_next {seat : Seat} {part : Part} (hallowed : seat.Allows part) (hidden : Bool) :
    if seat.hides hidden part then (seat.next hidden part).known = seat.known
    else seat.known.Allows part ∧ seat.known.next hidden part = (seat.next hidden part).known := by
  cases part with
  | enter =>
      -- An enter while something is entered would not be conforming.
      have hfree : seat.entered = none := hallowed
      cases hidden <;> simp [Seat.hides, Seat.known, Seat.next, Seat.Allows, hfree]
  | leave =>
      obtain ⟨whose, hwhose⟩ : ∃ whose, seat.entered = some whose := Option.isSome_iff_exists.mp hallowed
      cases whose <;> simp [Seat.hides, Seat.known, Seat.next, Seat.Allows, hwhose]
  | within =>
      obtain ⟨whose, hwhose⟩ : ∃ whose, seat.entered = some whose := Option.isSome_iff_exists.mp hallowed
      cases whose <;> simp [Seat.hides, Seat.known, Seat.next, Seat.Allows, hwhose]
  | down id =>
      have hfree : seat.touching id = none := hallowed
      cases hidden with
      | true =>
          -- The bridge is not told of the touch point, which is none for it before and after.
          have hsame := unhidden_update_none id (some true)
            (show Seat.unhidden (seat.touching id) = _ by simp [hfree])
          simp [Seat.hides, Seat.known, Seat.next, hsame]
      | false =>
          simp [Seat.hides, Seat.known, Seat.next, Seat.Allows, unhidden_update, hfree]
  | up id =>
      obtain ⟨whose, hwhose⟩ : ∃ whose, seat.touching id = some whose :=
        Option.isSome_iff_exists.mp hallowed
      cases whose with
      | true =>
          have hsame := unhidden_update_none id none
            (show Seat.unhidden (seat.touching id) = _ by simp [hwhose])
          simp [Seat.hides, Seat.known, Seat.next, hsame, hwhose]
      | false =>
          simp [Seat.hides, Seat.known, Seat.next, Seat.Allows, unhidden_update, hwhose]
  | touch id =>
      obtain ⟨whose, hwhose⟩ : ∃ whose, seat.touching id = some whose :=
        Option.isSome_iff_exists.mp hallowed
      cases whose <;> simp [Seat.hides, Seat.known, Seat.next, Seat.Allows, hwhose]
  | cancel => simp [Seat.hides, Seat.known, Seat.next, Seat.Allows]
  | frame => simp [Seat.hides, Seat.next, Seat.Allows]
  | apart => cases hidden <;> simp [Seat.hides, Seat.next, Seat.Allows]

private theorem conforming_visible {iface : String} {seat : Seat} {es : List InputEvent}
    (h : Conforming iface seat es) : Conforming iface seat.known (visible iface seat es) := by
  -- Induction over the events; a hidden one changes nothing of the known seat.
  induction es generalizing seat with
  | nil => trivial
  | cons e es ih =>
      rw [Conforming] at h
      rw [visible]
      cases hpart : e.part iface with
      | none =>
          rw [hpart] at h
          exact h.elim
      | some part =>
          rw [hpart] at h
          have hnext := known_next h.1 e.hidden
          have hrest := ih h.2
          dsimp only
          split at hnext
          · rename_i hhides
            rw [if_pos hhides, ← hnext]
            exact hrest
          · rename_i hhides
            rw [if_neg hhides, Conforming, hpart]
            exact ⟨hnext.1, hnext.2 ▸ hrest⟩

/-- Frames may be left out anywhere. -/
theorem conforming_settle {iface : String} {seat : Seat} {es : List InputEvent} (pending : Bool)
    (h : Conforming iface seat es) : Conforming iface seat (settle pending es) := by
  induction es generalizing seat pending with
  | nil => trivial
  | cons e es ih =>
      rw [Conforming] at h
      cases hpart : e.part iface with
      | none =>
          rw [hpart] at h
          exact h.elim
      | some part =>
          rw [hpart] at h
          rw [settle]
          split
          · rename_i hname
            -- Only a frame has the name of one.
            obtain rfl : part = .frame := (passes_eq_passesPart hpart {}).2.mp hname
            have hrest := ih false h.2
            split
            · rw [Conforming, hpart]
              exact ⟨trivial, hrest⟩
            · exact hrest
          · rw [Conforming, hpart]
            exact ⟨h.1, ih true h.2⟩

/-! ## Section 4: What Was Let Through -/

private theorem after_append (iface : String) (f : Focus) (es es' : List InputEvent) :
    f.after iface (es ++ es') = (f.after iface es).after iface es' :=
  List.foldl_append

private theorem follows_after {iface : String} {f : Focus} {seat : Seat} {before after : List InputEvent}
    (h : f.Follows seat) (hconf : Conforming iface seat (before ++ after)) :
    (f.after iface before).Follows (seat.after iface before) ∧
      Conforming iface (seat.after iface before) after := by
  -- Induction over the events before.
  induction before generalizing f seat with
  | nil => exact ⟨h, hconf⟩
  | cons e before ih =>
      rw [List.cons_append, Conforming] at hconf
      rw [Seat.after]
      cases hpart : e.part iface with
      | none =>
          rw [hpart] at hconf
          exact hconf.elim
      | some part =>
          rw [hpart] at hconf
          exact ih (follows_take h hpart hconf.1).1 hconf.2

/-- Something was let through since the last frame. -/
def Since (iface : String) (before : List InputEvent) : Prop :=
  ∃ earlier e later, before = earlier ++ e :: later ∧ passes iface earlier e ∧
    ∀ e' ∈ e :: later, e'.name ≠ "frame"

private theorem since_concat {iface : String} {before : List InputEvent} {e : InputEvent} :
    Since iface (before ++ [e]) ↔
      e.name ≠ "frame" ∧ (passes iface before e ∨ Since iface before) := by
  constructor
  · rintro ⟨earlier, x, later, heq, hpasses, hnames⟩
    -- The last event is the one that was let through, or it comes after that one.
    rcases List.eq_nil_or_concat later with rfl | ⟨later, last, rfl⟩
    · obtain ⟨rfl, hlast⟩ := List.append_inj' heq rfl
      obtain rfl : e = x := by simpa using hlast
      exact ⟨hnames e List.mem_cons_self, Or.inl hpasses⟩
    · have heq : before ++ [e] = (earlier ++ x :: later) ++ [last] := by simpa using heq
      obtain ⟨rfl, hlast⟩ := List.append_inj' heq rfl
      obtain rfl : e = last := by simpa using hlast
      refine ⟨hnames e (by simp), Or.inr ⟨earlier, x, later, rfl, hpasses, ?_⟩⟩
      intro e' he'
      rcases List.mem_cons.mp he' with rfl | he'
      · exact hnames e' List.mem_cons_self
      · exact hnames e' (by simp [he'])
  · rintro ⟨hname, hpasses | ⟨earlier, x, later, rfl, hpasses, hnames⟩⟩
    · exact ⟨before, e, [], rfl, hpasses, by simpa using hname⟩
    · refine ⟨earlier, x, later ++ [e], by simp, hpasses, ?_⟩
      intro e' he'
      rcases List.mem_cons.mp he' with rfl | he'
      · exact hnames e' List.mem_cons_self
      rcases List.mem_append.mp he' with he' | he'
      · exact hnames e' (List.mem_cons_of_mem _ he')
      · rw [List.mem_singleton.mp he']
        exact hname

private theorem pending_after {iface : String} {before after : List InputEvent}
    (hconf : Conforming iface {} (before ++ after)) :
    (Focus.after iface {} before).pending ↔ Since iface before := by
  -- By induction from the last event, since that is what a frame looks back to.
  induction before using List.reverseRecOn generalizing after with
  | nil =>
      constructor
      · intro h
        cases h
      · rintro ⟨earlier, e, later, heq, _⟩
        exact absurd heq (by simp)
  | append_singleton before e ih =>
      rw [List.append_assoc] at hconf
      obtain ⟨hfollows, hrest⟩ := follows_after follows_start hconf
      rw [List.singleton_append, Conforming] at hrest
      cases hpart : e.part iface with
      | none =>
          rw [hpart] at hrest
          exact hrest.elim
      | some part =>
          rw [hpart] at hrest
          obtain ⟨_, hout, hpending⟩ := follows_take hfollows hpart hrest.1
          have hframe := (passes_eq_passesPart hpart {}).2
          rw [since_concat, ← ih hconf, after_append, passes, hout, ne_eq, hframe]
          show ((Focus.after iface {} before).take iface e).1.pending ↔ _
          rw [hpending]
          by_cases hp : part = .frame
          · simp [hp]
          · simp [hp, or_comm]

/-- What is said here of a focus holds of the proxy: it lets through the events of an object that its
focus takes, and keeps the focus with the object. -/
theorem focus_eq_take {F : Type} {s : State F} {bridge : Id} {f : Focus}
    (h : s.role bridge = some (.focus f)) (iface : String) (e : InputEvent) :
    (s.focus bridge iface e.name e.hidden e.args).2 = (f.take iface e).2 ∧
      (s.focus bridge iface e.name e.hidden e.args).1.role bridge =
        some (.focus (f.take iface e).1) := by
  rw [State.focus, h]
  refine ⟨rfl, ?_⟩
  rw [State.role_adjustRole, if_pos rfl, h]
  rfl

/-- The events without the frames. -/
def unframed (es : List InputEvent) : List InputEvent :=
  es.filter (·.name ≠ "frame")

private theorem unframed_settle (pending : Bool) (es : List InputEvent) :
    unframed (settle pending es) = unframed es := by
  induction es generalizing pending with
  | nil => rfl
  | cons e es ih =>
      rw [settle]
      by_cases hname : e.name = "frame"
      -- A frame is left out on both sides.
      · have hframe : ∀ rest, unframed (e :: rest) = unframed rest := fun rest => by
          simp [unframed, hname]
        rw [if_pos hname, hframe]
        cases pending with
        | true => exact (hframe _).trans (ih false)
        | false => exact ih false
      · have hother : ∀ rest, unframed (e :: rest) = e :: unframed rest := fun rest => by
          simp [unframed, hname]
        rw [if_neg hname, hother, hother, ih true]

/-- The bridge gets the events of the surfaces it knows, and those of no surface, and the frames
that end them; these are events that the protocol has without the title bars, and they do not
depend on what happens over those. -/
theorem input_over_title_bars (iface : String) (es : List InputEvent)
    (h : Conforming iface {} es) :
    (∀ before e after part, es = before ++ e :: after → e.part iface = some part →
      (passes iface before e ↔
        if part = .frame then Since iface before
        else ((Seat.after iface {} before).hides e.hidden part) = false)) ∧
    Conforming iface {} (passed iface es) ∧
    (∀ es', Conforming iface {} es' → visible iface {} es = visible iface {} es' →
      passed iface es = passed iface es') ∧
    (∀ es', Conforming iface {} es' →
      unframed (visible iface {} es) = unframed (visible iface {} es') →
      unframed (passed iface es) = unframed (passed iface es')) := by
  have heq : ∀ es', Conforming iface {} es' → passed iface es' = settle false (visible iface {} es') :=
    fun es' hes' => passedFrom_eq follows_start hes'
  refine ⟨?_, ?_, ?_, ?_⟩
  · rintro before e after part rfl hpart
    obtain ⟨hfollows, hrest⟩ := follows_after follows_start h
    rw [Conforming, hpart] at hrest
    obtain ⟨_, hout, _⟩ := follows_take hfollows hpart hrest.1
    rw [passes, hout]
    by_cases hp : part = .frame
    · rw [if_pos hp, if_pos hp]
      exact pending_after h
    · simp [hp]
  · rw [heq es h]
    exact conforming_settle false (conforming_visible h)
  · intro es' hes' hvisible
    rw [heq es h, heq es' hes', hvisible]
  · intro es' hes' hvisible
    rw [heq es h, heq es' hes', unframed_settle, unframed_settle, hvisible]

/-- Into the window, onto a title bar in the same frame, and back. -/
def crossing : List InputEvent :=
  [{ name := "enter" }, { name := "frame" }, { name := "leave" },
    { name := "enter", hidden := true }, { name := "frame" }, { name := "motion" },
    { name := "frame" }, { name := "leave", hidden := true }, { name := "enter" },
    { name := "motion" }, { name := "frame" }]

theorem input_over_title_bars_crossing :
    Conforming "wl_pointer" {} crossing ∧ Conforming "wl_pointer" {} (passed "wl_pointer" crossing) ∧
      (passed "wl_pointer" crossing).map InputEvent.name =
        ["enter", "frame", "leave", "frame", "enter", "motion", "frame"] := by
  have h : Conforming "wl_pointer" {} crossing := by
    simp [crossing, Conforming, InputEvent.part, inputEvents, Seat.Allows, Seat.next, List.lookup_cons]
  exact ⟨h, (input_over_title_bars "wl_pointer" crossing h).2.1, by decide⟩

end Psbox.Decorations
