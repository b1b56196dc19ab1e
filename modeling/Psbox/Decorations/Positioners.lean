import Psbox.Decorations.CopiesFollow

/-!
# Positioners

A popup is placed below the title bar of its parent: while `xdg_surface.get_popup` and
`xdg_popup.reposition` go out, their positioner is moved by the title bar's height, and put back
after that. An `xdg_popup.configure` is moved up again, but by the height there is when it arrives,
which need not be the one that the popup was placed with.
-/

namespace Psbox.Decorations

open Psbox.Foundations
open State (positionerRequests)

variable {F : Type} {E : Setting F}

/-! ## Section 1: Placements -/

/-- A request that places a popup, with a positioner, below a title bar of some height. -/
structure Placement where
  /-- The serial number of the popup. -/
  popup : Nat
  positioner : Id
  height : Int
  /-- What the compositor answers a reposition with. -/
  token : Option Nat
  deriving DecidableEq, Repr

/-- The placement that a request is, if it goes to an object of the compositor's. -/
def State.placement (E : Setting F) (s : State F) (m : Request) : Option Placement :=
  match s.obj m.sender with
  | none => none
  | some o =>
      match o.kind, o.iface.name, (o.iface.requests[m.opcode]?).map MessageDesc.name with
      | .upstream (some _), "xdg_surface", some "get_popup" =>
          some { popup := s.births, positioner := uint m.args 2
                 height := s.header E (uint m.args 1), token := none }
      | .upstream (some _), "xdg_popup", some "reposition" =>
          some { popup := o.born, positioner := uint m.args 0
                 height := s.header E (s.popupParent m.sender), token := some (uint m.args 1) }
      | _, _, _ => none

/-- What a popup was placed with: the height that goes for the events to come, and the placements
that were asked for since, by their tokens. -/
structure Placed where
  height : Int := 0
  asked : List (Nat × Int) := []
  deriving DecidableEq, Repr

def Placed.place (w : Placed) (p : Placement) : Placed :=
  match p.token with
  | none => { height := p.height }
  | some token => { w with asked := w.asked ++ [(token, p.height)] }

/-- `xdg_popup.repositioned`: the events that follow are for the placement of this token, and those
before it are answered too. -/
def Placed.answered (w : Placed) (token : Nat) : Placed :=
  match w.asked.dropWhile fun asked => asked.1 ≠ token with
  | asked :: later => { height := asked.2, asked := later }
  | [] => w

/-- What the popups were placed with, by their serial numbers, goes on with each step. -/
def places (E : Setting F) (s : State F) (a : Action) (w : Nat → Placed) : Nat → Placed :=
  match a with
  | .request m _ =>
      match s.placement E m with
      | some p => Function.update w p.popup ((w p.popup).place p)
      | none => w
  | .event e =>
      match s.receiver e, e.args with
      | some (_, o, desc), [.uint token] =>
          if o.iface.name = "xdg_popup" ∧ desc.name = "repositioned" then
            Function.update w o.born ((w o.born).answered token)
          else w
      | _, _ => w
  | _ => w

/-- What was asked of the bridge's objects, and what its popups were placed with. -/
abbrev Asked := (Nat → Own) × (Nat → Placed)

def asksAndPlaces (E : Setting F) (s : State F) (a : Action) (w : Asked) : Asked :=
  (asks s a w.1, places E s a w.2)

/-- A popup that is configured has a title bar above its parent as high as the one that it was
placed with. -/
def HeaderStays (E : Setting F) (s : State F) (placed : Nat → Placed) : Action → Prop
  | .event e => ∀ x ∈ s.receiver e, x.2.1.iface.name = "xdg_popup" → x.2.2.name = "configure" →
      s.header E (s.popupParent x.1) = (placed x.2.1.born).height
  | _ => True

instance (E : Setting F) (s : State F) (placed : Nat → Placed) : (a : Action) → Decidable (HeaderStays E s placed a)
  | .event e => inferInstanceAs (Decidable (∀ x ∈ s.receiver e, x.2.1.iface.name = "xdg_popup" →
      x.2.2.name = "configure" → s.header E (s.popupParent x.1) = (placed x.2.1.born).height))
  | .request _ _ | .setOutput _ _ | .close _ => isTrue trivial

/-! ## Section 2: What a Step Has to Do -/

/-- The compositor's copy of a positioner is the bridge's own, moved by a height. -/
structure PlacedBelow (height : Int) (own copy : Own) : Prop where
  anchor : copy.anchor = own.anchor.map (shiftAnchor height)
  parentSize : copy.parentSize = own.parentSize.map (growSize height)

/-- A positioner of the bridge's that is forwarded. -/
structure State.IsPositioner (s : State F) (id : Id) (o : Obj) (up : ObjectId) : Prop where
  found : s.obj id = some o
  iface : o.iface.name = "xdg_positioner"
  role : o.role.tag = .positioner
  kind : o.kind = .upstream (some up)

/-- A step of the proxy that treats positioners and popups right. -/
structure PlacesRight (E : Setting F) (s : State F) (own : Nat → Own) (placed : Nat → Placed) (a : Action)
    (s' : State F) : Prop where
  /-- A request that places a popup goes out while its positioner is moved by the height of the title
  bar above the popup's parent. -/
  used : ∀ m answer, a = .request m answer → ∀ p, s.placement E m = some p → ∀ o up,
    s.IsPositioner p.positioner o up → ∀ pre sender request args post,
      s'.log = pre ++ .passed sender request args :: post → s.log.length ≤ pre.length →
        request ∉ positionerRequests → PlacedBelow p.height (own o.born) (copyOf up pre)
  /-- What the bridge is told of a popup is moved up by the height that the popup was placed with. -/
  configured : ∀ e, a = .event e → ∀ bridge o desc, s.receiver e = some (bridge, o, desc) →
    o.iface.name = "xdg_popup" → desc.name = "configure" → ∀ x y w h,
      e.args = [.int x, .int y, .int w, .int h] → ∀ pre id up name written post,
        s'.log = pre ++ .event id up name e.args written :: post → s.log.length ≤ pre.length →
          written = [.int x, .int (saturate (y - (placed o.born).height)), .int w, .int h]
  /-- Afterwards the copies of positioners are the bridge's own. -/
  between : ∀ id o up, s'.IsPositioner id o up →
    (copyOf up s'.log).anchor = (asks s a own o.born).anchor ∧
      (copyOf up s'.log).parentSize = (asks s a own o.born).parentSize

/-! ## Section 3: What Goes Out -/

/-- A request that does more than set a positioner. -/
def Entry.uses : Entry → Prop
  | .passed _ request _ => request ∉ positionerRequests
  | _ => False

/-- What only one entry of the new part of a log is, stands where that entry is. -/
theorem split_only {N : Entry → Prop} {log new later pre post : List Entry} {e₀ e : Entry}
    (h : log ++ (new ++ e₀ :: later) = pre ++ e :: post) (hlength : log.length ≤ pre.length)
    (hnew : ∀ x ∈ new, ¬N x) (hlater : ∀ x ∈ later, ¬N x) (he : N e) : pre = log ++ new ∧ e = e₀ := by
  obtain ⟨pre', rfl, hsplit⟩ := split_new h hlength
  rcases List.append_eq_append_iff.mp hsplit with ⟨mid, rfl, hmid⟩ | ⟨mid, rfl, hmid⟩
  · cases mid with
    | nil =>
        obtain ⟨rfl, _⟩ := List.cons.inj hmid
        exact ⟨by rw [List.append_nil], rfl⟩
    | cons x mid =>
        -- It would be a later one.
        obtain ⟨_, rfl⟩ := List.cons.inj hmid
        exact absurd he (hlater e (by simp))
  · cases mid with
    | nil =>
        obtain ⟨rfl, _⟩ := List.cons.inj hmid
        exact ⟨by rw [List.append_nil], rfl⟩
    | cons x mid =>
        -- It would be one before.
        obtain ⟨rfl, _⟩ := List.cons.inj hmid
        exact absurd he (hnew e (by simp))

private theorem not_uses_of_asks {e : Entry} (h : e.asks positionerRequests) : ¬e.uses := by
  cases e with
  | passed up request args => exact fun huses => huses h
  | _ => exact fun huses => huses

namespace State

variable {s s' t : State F}

/-- Once a request has gone out, no other does that more than sets a positioner. -/
theorem complete_log (s : State F) (obj : Obj) (desc : MessageDesc) (up : Option ObjectId) (sender : Id)
    (answer : Answer) (after : After) (out : Outgoing) :
    ∃ sent later, (s.complete E obj desc up sender answer after out).log =
        (s.pass up sent desc.name out.args).log ++ later ∧ ∀ e ∈ later, ¬e.uses := by
  unfold State.complete
  dsimp only
  generalize (if out.dead then none else up.bind fun _ => answer.sent) = sent
  have hcreated : ∃ later, ((s.pass up sent desc.name out.args).createChild E out.child obj.version sent).log =
      (s.pass up sent desc.name out.args).log ++ later ∧ ∀ e ∈ later, ¬e.uses := by
    unfold createChild
    split
    · exact ⟨[], (List.append_nil _).symm, by simp⟩
    · dsimp only
      split
      · exact ⟨[_], rfl, by simp [Entry.uses]⟩
      · exact ⟨[_], rfl, by simp [Entry.uses]⟩
  have happlied : ∀ (t : State F) child, ∃ later, (t.apply sender child after).log = t.log ++ later ∧
      ∀ e ∈ later, ¬e.uses := by
    intro t child
    have hrole : ∀ (t : State F) role, (t.setChildRole child role).log = t.log := by
      intro t role
      unfold setChildRole
      split <;> rfl
    have hrestored : ∀ positioner height, ∃ later,
        (t.restorePositioner positioner height).log = t.log ++ later ∧ ∀ e ∈ later, ¬e.uses := by
      intro positioner height
      obtain ⟨later, hlog, hlater⟩ := (t.alters_restorePositioner positioner height).log
      exact ⟨later, hlog, fun e he => not_uses_of_asks (hlater e he)⟩
    cases after with
    | popup parent positioner height =>
        obtain ⟨later, hlog, hlater⟩ := hrestored positioner height
        exact ⟨later, (hrole _ _).trans hlog, hlater⟩
    | reposition positioner height => exact hrestored positioner height
    | toplevel =>
        refine ⟨[], ?_, by simp⟩
        rw [List.append_nil]
        cases child <;> rfl
    | nothing => exact ⟨[], (List.append_nil _).symm, by simp⟩
    | buffer _ _ | viewport _ | xdgOutput _ | xdgSurface _ =>
        exact ⟨[], (hrole _ _).trans (List.append_nil _).symm, by simp⟩
  obtain ⟨created, hcreated, hcreatedUses⟩ := hcreated
  obtain ⟨applied, happlied, happliedUses⟩ :=
    happlied ((s.pass up sent desc.name out.args).createChild E out.child obj.version sent)
      (out.child.map Prod.fst)
  have hboth : ∀ e ∈ created ++ applied, ¬e.uses := by
    intro e he
    rcases List.mem_append.mp he with he | he
    · exact hcreatedUses e he
    · exact happliedUses e he
  rw [hcreated, List.append_assoc] at happlied
  split
  -- A destructor takes the object away, and frees an id of the bridge's.
  · unfold deleteId
    split
    · refine ⟨sent, created ++ applied ++ [.destroyed sender, .deleteId sender], ?_, ?_⟩
      · show (_ ++ [_]) ++ [_] = _
        rw [happlied]
        simp
      · intro e he
        rcases List.mem_append.mp he with he | he
        · exact hboth e he
        · rcases List.mem_pair.mp he with rfl | rfl <;> exact fun huses => huses
    · refine ⟨sent, created ++ applied ++ [.destroyed sender], ?_, ?_⟩
      · show _ ++ [_] = _
        rw [happlied]
        simp
      · intro e he
        rcases List.mem_append.mp he with he | he
        · exact hboth e he
        · rw [List.mem_singleton.mp he]
          exact fun huses => huses
  · exact ⟨sent, created ++ applied, happlied, hboth⟩

private theorem placement_eq_some {m : Request} {p : Placement} (h : s.placement E m = some p) :
    ∃ o up desc, s.obj m.sender = some o ∧ o.kind = .upstream (some up) ∧
      o.iface.requests[m.opcode]? = some desc ∧
        (o.iface.name = "xdg_surface" ∧ desc.name = "get_popup" ∧ p.positioner = uint m.args 2 ∧
            p.height = s.header E (uint m.args 1) ∨
          o.iface.name = "xdg_popup" ∧ desc.name = "reposition" ∧ p.positioner = uint m.args 0 ∧
            p.height = s.header E (s.popupParent m.sender)) := by
  unfold placement at h
  split at h
  · cases h
  rename_i o ho
  split at h
  · rename_i up hkind hiface hrequest
    obtain ⟨desc, hdesc, hname⟩ := Option.map_eq_some_iff.mp hrequest
    cases h
    exact ⟨o, up, desc, ho, hkind, hdesc, .inl ⟨hiface, hname, rfl, rfl⟩⟩
  · rename_i up hkind hiface hrequest
    obtain ⟨desc, hdesc, hname⟩ := Option.map_eq_some_iff.mp hrequest
    cases h
    exact ⟨o, up, desc, ho, hkind, hdesc, .inr ⟨hiface, hname, rfl, rfl⟩⟩
  · cases h

/-- A request that places a popup goes out between what moves its positioner and what puts it back. -/
theorem log_of_placement {m : Request} {answer : Answer} {p : Placement} (hp : s.placement E m = some p)
    (hs : s.request E m answer = .ok s') :
    ∃ later e₀, (s'.log = (s.offsetPositioner p.positioner p.height).log ++ later ∨
        s'.log = (s.offsetPositioner p.positioner p.height).log ++ e₀ :: later) ∧ ∀ e ∈ later, ¬e.uses := by
  obtain ⟨o, up, desc, ho, hkind, hdesc, hplaces⟩ := placement_eq_some hp
  have hregistry : o.iface.name ≠ "wl_registry" := by
    rcases hplaces with ⟨hi, _⟩ | ⟨hi, _⟩
    all_goals
      rw [hi]
      decide
  have hforward := (forward_of_request ho hdesc hkind hregistry hs).2
  have hbefore : (s.beforeRequest E m.sender o.iface.name desc.name m.args) =
      (s.offsetPositioner p.positioner p.height, m.args, true) := by
    rcases hplaces with ⟨hi, hn, hpos, hheight⟩ | ⟨hi, hn, hpos, hheight⟩
    · rw [hi, hn, hpos, hheight]
      rfl
    · rw [hi, hn, hpos, hheight]
      rfl
  rcases forward_cases hforward with ⟨hkept, _⟩ | ⟨out, _, _, hcomplete⟩
  · rw [hbefore] at hkept
    cases hkept
  rw [hbefore] at hcomplete
  dsimp only at hcomplete
  obtain ⟨sent, later, hlog, hlater⟩ := (s.offsetPositioner p.positioner p.height).complete_log (E := E) o desc
    (some up) m.sender answer ((s.offsetPositioner p.positioner p.height).afterRequest E m.sender o.iface.name
      desc.name m.args) out
  rw [← hcomplete] at hlog
  cases sent with
  | none => exact ⟨later, .destroyed 0, .inl hlog, hlater⟩
  | some _ =>
      refine ⟨later, .passed up desc.name out.args, .inr ?_, hlater⟩
      rw [hlog]
      exact List.append_assoc _ _ _

/-! ## Section 4: Every Step -/

private theorem isPositioner_role {id : Id} {o : Obj} {up : ObjectId} (h : s.IsPositioner id o up) :
    ∃ anchor size, o.role = .positioner anchor size := by
  have htag := h.role
  cases hrole : o.role with
  | positioner anchor size => exact ⟨anchor, size, rfl⟩
  | _ =>
      rw [hrole] at htag
      cases htag

/-- What the invariant says of a positioner. -/
theorem Mirrors.placed {level : Id → Prop} {shift : Id → Int} {w : Nat → Own} (h : s.Mirrors E level shift w)
    {id : Id} {o : Obj} {up : ObjectId} (hp : s.IsPositioner id o up) :
    PlacedBelow (shift id) (w o.born) (copyOf up s.log) := by
  obtain ⟨anchor, size, hrole⟩ := isPositioner_role hp
  obtain ⟨_, _, _, _, hanchor, hsize⟩ := (h.objects id o up hp.found hp.kind).placing hp.iface anchor size hrole
  exact ⟨hanchor, hsize⟩

/-- And where it is not moved. -/
theorem Mirrors.unmoved {level : Id → Prop} {w : Nat → Own} (h : s.Mirrors E level (fun _ => 0) w)
    {id : Id} {o : Obj} {up : ObjectId} (hp : s.IsPositioner id o up) :
    (copyOf up s.log).anchor = (w o.born).anchor ∧ (copyOf up s.log).parentSize = (w o.born).parentSize := by
  obtain ⟨anchor, size, hrole⟩ := isPositioner_role hp
  obtain ⟨_, _, hranges, hsizes, hanchor, hsize⟩ :=
    (h.objects id o up hp.found hp.kind).placing hp.iface anchor size hrole
  constructor
  · rw [hanchor]
    cases hown : (w o.born).anchor with
    | none => rfl
    | some r =>
        have hrange := hranges r hown
        show some (shiftAnchor 0 r) = some r
        unfold shiftAnchor
        rw [Int.add_zero, saturate_of_inRange hrange]
  · rw [hsize]
    cases hown : (w o.born).parentSize with
    | none => rfl
    | some x =>
        have hrange := (hsizes x hown).1
        show some (growSize 0 x) = some x
        unfold growSize
        rw [Int.add_zero, saturate_of_inRange hrange]

/-- While a request places a popup, its positioner is moved. -/
theorem Mirrors.used {level : Id → Prop} {w : Nat → Own} (h : s.Mirrors E level (fun _ => 0) w) {m : Request}
    {answer : Answer} {p : Placement} (hp : s.placement E m = some p) (hs : s.request E m answer = .ok s')
    {o : Obj} {up : ObjectId} (hpositioner : s.IsPositioner p.positioner o up) {pre post : List Entry}
    {sender : ObjectId} {request : String} {args : List UpstreamArg}
    (hlog : s'.log = pre ++ .passed sender request args :: post) (hlength : s.log.length ≤ pre.length)
    (huses : request ∉ positionerRequests) : PlacedBelow p.height (w o.born) (copyOf up pre) := by
  obtain ⟨new, hmoved, hnew⟩ := (s.alters_offsetPositioner p.positioner p.height).log
  have hmirrors := h.offsetPositioner p.positioner p.height
  have hsame : (s.offsetPositioner p.positioner p.height).IsPositioner p.positioner o up := by
    refine ⟨?_, hpositioner.iface, hpositioner.role, hpositioner.kind⟩
    rw [← hpositioner.found]
    unfold State.offsetPositioner
    split
    · rw [obj, obj, (s.setPositioner_same p.positioner p.height).1]
    · rfl
  have hplaced := hmirrors.placed hsame
  rw [Function.update_self] at hplaced
  obtain ⟨later, e₀, hcases, hlater⟩ := log_of_placement hp hs
  have hnewUses : ∀ x ∈ new, ¬x.uses := fun x hx => not_uses_of_asks (hnew x hx)
  rcases hcases with hs' | hs'
  · -- It does not go out.
    rw [hlog, hmoved, List.append_assoc] at hs'
    obtain ⟨pre', _, hsplit⟩ := split_new hs'.symm hlength
    have hmem : Entry.passed sender request args ∈ new ++ later := by
      rw [hsplit]
      simp
    rcases List.mem_append.mp hmem with hmem | hmem
    · exact absurd huses (hnewUses _ hmem)
    · exact absurd huses (hlater _ hmem)
  · rw [hlog, hmoved, List.append_assoc] at hs'
    obtain ⟨rfl, _⟩ := split_only hs'.symm hlength hnewUses hlater huses
    rw [← hmoved]
    exact hplaced

/-- A popup that is configured is moved up by the height of the title bar above it. -/
theorem event_configured {e : Event} {bridge : Id} {o : Obj} {desc : MessageDesc} (ht : Taken s e bridge o desc)
    (hi : o.iface.name = "xdg_popup") (hn : desc.name = "configure") {x y width height : Int}
    (hargs : e.args = [.int x, .int y, .int width, .int height]) {pre post : List Entry} {id : Id}
    {up : ObjectId} {name : String} {sent : List UpstreamArg} {written : List BridgeArg}
    (hlog : (s.event E e).log = pre ++ .event id up name sent written :: post)
    (hlength : s.log.length ≤ pre.length) :
    written = [.int x, .int (saturate (y - s.header E (s.popupParent bridge))), .int width, .int height] := by
  have hr : s.receive E desc o.version e.alive e.args =
      (s, some { args := [.int x, .int y, .int width, .int height] }) := by
    rw [hargs]
    rfl
  have hd := event_delivered ht hr
  rw [hi, hn] at hd
  have hbefore : s.beforeEvent E bridge "xdg_popup" "configure" false
      [.int x, .int y, .int width, .int height] =
        let out := s.focus bridge "xdg_popup" "configure" false
          [.int x, .int (saturate (y - s.header E (s.popupParent bridge))), .int width, .int height]
        (out.1, [.int x, .int (saturate (y - s.header E (s.popupParent bridge))), .int width, .int height],
          out.2) := by
    unfold State.beforeEvent
    rw [if_neg (by decide), if_neg (by decide), if_neg fun h => absurd h.1 (by decide), if_neg (by decide)]
    rfl
  rw [hbefore] at hd
  dsimp only at hd
  obtain ⟨ended, hs', hended⟩ := hd.log
  dsimp only at hs'
  rw [(s.alters_focus bridge "xdg_popup" "configure" false _ (N := fun _ => False)).log_eq, hlog] at hs'
  obtain ⟨pre', _, hsplit⟩ := split_new hs'.symm hlength
  have hmem : Entry.event id up name sent written ∈ pre' ++ .event id up name sent written :: post := by simp
  rw [← hsplit] at hmem
  rcases List.mem_append.mp hmem with hmem | hmem
  · split at hmem
    · obtain ⟨_, _, _, _, hwritten⟩ := Entry.event.inj (List.mem_singleton.mp hmem)
      exact hwritten
    · cases hmem
  · rcases hended _ hmem with hgone | hgone <;> cases hgone

end State

private theorem placesRight_of_mirrors {s : State F} {own : Nat → Own} {placed : Nat → Placed} {a : Action}
    (h : s.Mirrors E (fun _ => False) (fun _ => 0) own) (hserials : s.Serials) (hkept : s.IdsKept)
    (hsteady : E.drawing.Steady) (hp : Promised s a) (hstays : HeaderStays E s placed a) {s' : State F}
    (hs : step E s a = some s') : PlacesRight E s own placed a s' := by
  refine { used := ?used, configured := ?configured, between := ?between }
  case used =>
    rintro m answer rfl p hplacement o up hpositioner pre sender request args post hlog hlength huses
    exact h.used hplacement (toOption_eq_some.mp hs) hpositioner hlog hlength huses
  case configured =>
    rintro e rfl bridge o desc hreceiver hi hn x y width height hargs pre id up name written post hlog hlength
    cases hs
    have hheight := hstays _ hreceiver hi hn
    rw [← hheight]
    exact State.event_configured (State.receiver_eq_some.mp hreceiver) hi hn hargs hlog hlength
  case between =>
    intro id o up hpositioner
    have hafter := h.step hserials hkept hsteady hp (fun _ hl => hl.elim) hs
    exact hafter.unmoved hpositioner

/-- Every step of a run in which each popup is configured below a title bar as high as the one that it
was placed with treats positioners and popups right. -/
theorem positioners_follow {A : Type} (L : Library A) (hL : L.Lawful) {E : Setting (Window A)}
    (hdraws : E.drawing = L.drawing) {as : List Action}
    (hmeets : StepsMeet (watched (step E) (asksAndPlaces E))
      (fun x a => Promised x.1 a ∧ HeaderStays E x.1 x.2.2 a)
      (State.initial (Window A) E, (fun _ => {}, fun _ => {})) as) :
    StepsMeet (watched (step E) (asksAndPlaces E))
      (fun x a => ∀ s', step E x.1 a = some s' → PlacesRight E x.1 x.2.1 x.2.2 a s')
      (State.initial (Window A) E, (fun _ => {}, fun _ => {})) as := by
  have hsteady : E.drawing.Steady := hdraws ▸ hL.steady
  apply stepsMeet_of_invariant (I := fun x : State (Window A) × Asked =>
    x.1.Mirrors E (fun _ => False) (fun _ => 0) x.2.1 ∧ x.1.Serials ∧ x.1.IdsKept) _ _ _ hmeets
  · rintro ⟨s, w⟩ a ⟨s', w'⟩ ⟨hmirrors, hserials, hkept⟩ ⟨hp, _⟩ hstep
    obtain ⟨hs, rfl⟩ := watched_eq_some.mp hstep
    exact ⟨hmirrors.step hserials hkept hsteady hp (fun _ hl => hl.elim) hs, hserials.step hkept hs,
      hkept.step hs⟩
  · rintro ⟨s, w⟩ a ⟨hmirrors, hserials, hkept⟩ ⟨hp, hstays⟩ s' hs
    exact placesRight_of_mirrors hmirrors hserials hkept hsteady hp hstays hs
  · exact ⟨State.mirrors_initial _ E _, State.serials_initial _ E, State.idsKept_initial _ E⟩

/-- A popup below a title bar of 35, at 10 in the window. -/
def popupPlaced : List Action :=
  windowOpens ++ [.request ⟨9, 1, [.uint serverSide]⟩ ⟨none, true⟩,
    .request ⟨4, 0, [.newId 20]⟩ ⟨some 30, true⟩,
    .request ⟨20, 1, [.int 0, .int 10, .int 1, .int 1]⟩ ⟨some 0, true⟩,
    .request ⟨3, 0, [.newId 21]⟩ ⟨some 31, true⟩,
    .request ⟨4, 1, [.newId 22, .object 21]⟩ ⟨some 32, true⟩,
    .request ⟨22, 1, [.newId 23, .object 7, .object 20]⟩ ⟨some 33, true⟩]

/-- The compositor puts it where it was asked to. -/
def popupConfigured : Action :=
  .event { sender := 33, opcode := 0, args := [.int 0, .int 45, .int 100, .int 50] }

/-- The entries of a run's log. -/
def logged (as : List Action) : List Entry :=
  ((run (step windowSetting) (State.initial _ windowSetting) as).map State.log).getD []

theorem positioners_follow_example :
    StepsMeet (watched (step windowSetting) (asksAndPlaces windowSetting))
        (fun x a => ∀ s', step windowSetting x.1 a = some s' → PlacesRight windowSetting x.1 x.2.1 x.2.2 a s')
        (State.initial _ windowSetting, (fun _ => {}, fun _ => {})) (popupPlaced ++ [popupConfigured]) ∧
      logged (popupPlaced ++ [popupConfigured]) = logged popupPlaced ++
        [.event 23 33 "configure" [.int 0, .int 45, .int 100, .int 50] [.int 0, .int 10, .int 100, .int 50]] :=
  ⟨positioners_follow (plainTitles 35) (plainTitles_lawful 35) rfl (by decide), by decide +kernel⟩

/-- The title bar goes before the popup is configured: it is told to be 35 too low. -/
theorem header_gone :
    StepsMeet (watched (step windowSetting) (asksAndPlaces windowSetting)) (fun x a => Promised x.1 a)
        (State.initial _ windowSetting, (fun _ => {}, fun _ => {}))
        (popupPlaced ++ [.request ⟨9, 1, [.uint clientSide]⟩ ⟨none, true⟩, popupConfigured]) ∧
      ∃ x s', run (watched (step windowSetting) (asksAndPlaces windowSetting))
          (State.initial _ windowSetting, (fun _ => {}, fun _ => {}))
          (popupPlaced ++ [.request ⟨9, 1, [.uint clientSide]⟩ ⟨none, true⟩]) = some x ∧
        step windowSetting x.1 popupConfigured = some s' ∧
        s'.log = x.1.log ++ [.event 23 33 "configure" [.int 0, .int 45, .int 100, .int 50]
          [.int 0, .int 45, .int 100, .int 50]] ∧
        ¬PlacesRight windowSetting x.1 x.2.1 x.2.2 popupConfigured s' := by
  refine ⟨by decide, ?_⟩
  have hsome : ((run (watched (step windowSetting) (asksAndPlaces windowSetting))
      (State.initial _ windowSetting, (fun _ => {}, fun _ => {}))
      (popupPlaced ++ [.request ⟨9, 1, [.uint clientSide]⟩ ⟨none, true⟩])).any fun x =>
        (step windowSetting x.1 popupConfigured).any fun s' =>
          (x.1.receiver { sender := 33, opcode := 0, args := [.int 0, .int 45, .int 100, .int 50] }).any fun y =>
            decide (y.2.1.iface.name = "xdg_popup" ∧ y.2.2.name = "configure" ∧ (x.2.2 y.2.1.born).height = 35 ∧
              s'.log = x.1.log ++ [.event 23 33 "configure" [.int 0, .int 45, .int 100, .int 50]
                [.int 0, .int 45, .int 100, .int 50]])) = true := by
    decide
  obtain ⟨x, hx, hany⟩ := exists_of_any hsome
  obtain ⟨s', hs', hany⟩ := exists_of_any hany
  obtain ⟨⟨bridge, o, desc⟩, hreceiver, hchecked⟩ := exists_of_any hany
  obtain ⟨hiface, hname, hheight, hlog⟩ := of_decide_eq_true hchecked
  refine ⟨x, s', hx, hs', hlog, fun hright => ?_⟩
  have hwritten := hright.configured _ rfl bridge o desc hreceiver hiface hname 0 45 100 50 rfl x.1.log 23 33
    "configure" _ [] hlog le_rfl
  rw [hheight] at hwritten
  exact absurd hwritten (by decide)

end Psbox.Decorations
