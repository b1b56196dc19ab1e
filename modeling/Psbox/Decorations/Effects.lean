import Psbox.Decorations.Sizes

/-!
# What Bookkeeping Changes

`Alters T N s s'`: between two states only objects of the tags `T` change in what is tracked of
them, and each entry that is logged meets `N`. The bookkeeping for a message alters little, and
what that is goes by the interface of the message.
-/

namespace Psbox.Decorations

open Psbox.Foundations (bind_eq_ok)

variable {F : Type} {E : Setting F}

/-! ## Section 1: Tags -/

/-- What an object is, by what is tracked of it. -/
inductive Tag where
  | none
  | surface
  | buffer
  | bufferParams
  | viewport
  | output
  | xdgOutput
  | xdgSurface
  | toplevel
  | popup
  | positioner
  | focus
  | registry
  deriving DecidableEq, Repr

def Role.tag : Role → Tag
  | .none => .none
  | .surface _ => .surface
  | .buffer _ _ => .buffer
  | .bufferParams _ => .bufferParams
  | .viewport _ => .viewport
  | .output _ => .output
  | .xdgOutput _ => .xdgOutput
  | .xdgSurface _ _ => .xdgSurface
  | .toplevel _ => .toplevel
  | .popup _ => .popup
  | .positioner _ _ => .positioner
  | .focus _ => .focus
  | .registry _ => .registry

/-- A request of one of these names, passed on or the proxy's own. -/
def Entry.asks (names : List String) : Entry → Prop
  | .passed _ name _ => name ∈ names
  | _ => False

/-- An event of the proxy's own, of one of these names. -/
def Entry.tells (names : List String) : Entry → Prop
  | .own _ name _ => name ∈ names
  | _ => False

/-- Only objects of some tags change, none in its tag, and only some entries are logged. -/
structure Alters (tags : List Tag) (N : Entry → Prop) (s s' : State F) : Prop where
  tag : ∀ id, (s'.role id).map Role.tag = (s.role id).map Role.tag
  role : ∀ id r, s.role id = some r → r.tag ∉ tags → s'.role id = some r
  outputs : s'.outputs = s.outputs
  log : ∃ new, s'.log = s.log ++ new ∧ ∀ e ∈ new, N e

namespace Alters

variable {tags tags' : List Tag} {N N' : Entry → Prop} {s t u : State F}

theorem refl (s : State F) : Alters tags N s s :=
  ⟨fun _ => rfl, fun _ _ h _ => h, rfl, [], (List.append_nil _).symm, by simp⟩

theorem trans (h : Alters tags N s t) (h' : Alters tags N t u) : Alters tags N s u := by
  obtain ⟨new, hlog, hnew⟩ := h.log
  obtain ⟨new', hlog', hnew'⟩ := h'.log
  refine ⟨fun id => (h'.tag id).trans (h.tag id), fun id r hr ht => h'.role id r (h.role id r hr ht) ht,
    h'.outputs.trans h.outputs, new ++ new', ?_, ?_⟩
  · rw [hlog', hlog, List.append_assoc]
  · intro e he
    rcases List.mem_append.mp he with he | he
    · exact hnew e he
    · exact hnew' e he

theorem mono (h : Alters tags N s t) (htags : tags ⊆ tags') (hN : ∀ e, N e → N' e) :
    Alters tags' N' s t := by
  obtain ⟨new, hlog, hnew⟩ := h.log
  exact ⟨h.tag, fun id r hr ht => h.role id r hr fun hmem => ht (htags hmem), h.outputs, new, hlog,
    fun e he => hN e (hnew e he)⟩

/-- What an object of another tag is, it was. -/
theorem of_role (h : Alters tags N s t) {id : Id} {r : Role} (hr : t.role id = some r)
    (ht : r.tag ∉ tags) : s.role id = some r := by
  have htag := h.tag id
  rw [hr] at htag
  obtain ⟨r', hr', hsame⟩ := Option.map_eq_some_iff.mp htag.symm
  have hkept := h.role id r' hr' (by rw [hsame]; exact ht)
  rw [hr']
  exact hkept.symm.trans hr

/-- Nothing is logged where nothing may be. -/
theorem log_eq (h : Alters tags (fun _ => False) s t) : t.log = s.log := by
  obtain ⟨new, hlog, hnew⟩ := h.log
  have hnil : new = [] := List.eq_nil_iff_forall_not_mem.mpr hnew
  rw [hlog, hnil, List.append_nil]

theorem foldl {α : Type} {f : State F → α → State F} (hf : ∀ s a, Alters tags N s (f s a)) (as : List α)
    (s : State F) : Alters tags N s (as.foldl f s) := by
  induction as generalizing s with
  | nil => exact refl s
  | cons a as ih => exact (hf s a).trans (ih (f s a))

theorem note (s : State F) {e : Entry} (he : N e) : Alters tags N s (s.note e) :=
  ⟨fun _ => rfl, fun _ _ h _ => h, rfl, [e], rfl, by simpa using he⟩

theorem frames (s : State F) (frames : Table (Frame F)) : Alters tags N s { s with frames := frames } :=
  ⟨fun _ => rfl, fun _ _ h _ => h, rfl, [], (List.append_nil _).symm, by simp⟩

/-- A change of objects of one tag. -/
theorem adjustRole (s : State F) (id : Id) {f : Role → Role} (tag : Tag) (hmem : tag ∈ tags)
    (hf : ∀ r, (f r).tag = r.tag ∧ (r.tag ≠ tag → f r = r)) :
    Alters tags N s (s.adjustRole id f) := by
  refine ⟨fun j => ?_, fun j r hr ht => ?_, rfl, [], (List.append_nil _).symm, by simp⟩
  · rw [State.role_adjustRole]
    split
    · rw [Option.map_map]
      congr 1
      exact funext fun r => (hf r).1
    · rfl
  · rw [State.role_adjustRole]
    split
    · have hne : r.tag ≠ tag := fun htag => ht (htag ▸ hmem)
      rw [hr, Option.map_some, (hf r).2 hne]
    · exact hr

/-- A change of one object, which is of one of the tags. -/
theorem adjustRole_of {id : Id} {r : Role} (hrole : s.role id = some r) (hmem : r.tag ∈ tags)
    {f : Role → Role} (hf : (f r).tag = r.tag) : Alters tags N s (s.adjustRole id f) := by
  refine ⟨fun j => ?_, fun j r' hr' ht => ?_, rfl, [], (List.append_nil _).symm, by simp⟩
  · rw [State.role_adjustRole]
    split
    · rename_i hj
      rw [hj, hrole, Option.map_some, Option.map_some, Option.map_some, hf]
    · rfl
  · rw [State.role_adjustRole]
    split
    · rename_i hj
      rw [hj, hrole] at hr'
      cases hr'
      exact absurd hmem ht
    · exact hr'

end Alters

namespace State

theorem role_eq_some {s : State F} {id : Id} {r : Role} :
    s.role id = some r ↔ ∃ o, s.obj id = some o ∧ o.role = r :=
  Option.map_eq_some_iff

/-! ## Section 2: Requests -/

theorem alters_adjustSurface (s : State F) (id : Id) (f : Surface → Surface) {N : Entry → Prop} :
    Alters [.surface] N s (s.adjustSurface id f) := by
  apply Alters.adjustRole _ _ .surface List.mem_cons_self
  intro r
  cases r with
  | surface x => exact ⟨rfl, fun ht => absurd rfl ht⟩
  | _ => exact ⟨rfl, fun _ => rfl⟩

theorem alters_adjustOutput (s : State F) (id : Id) (f : Output → Output) {N : Entry → Prop} :
    Alters [.output] N s (s.adjustOutput id f) := by
  apply Alters.adjustRole _ _ .output List.mem_cons_self
  intro r
  cases r with
  | output o => exact ⟨rfl, fun ht => absurd rfl ht⟩
  | _ => exact ⟨rfl, fun _ => rfl⟩

private theorem alters_requestUpstream (s : State F) (up : Option ObjectId) {name : String} {names : List String}
    (hname : name ∈ names) (args : List Int) :
    Alters [] (Entry.asks names) s (s.requestUpstream up name args) := by
  cases up with
  | none => exact Alters.refl s
  | some up => exact Alters.note s hname

def positionerRequests : List String := ["set_anchor_rect", "set_parent_size"]

private theorem alters_setPositioner (s : State F) (positioner : Id) (offset : Int) :
    Alters [] (Entry.asks positionerRequests) s (s.setPositioner positioner offset) := by
  have hanchor : ∀ (t : State F) up anchor,
      Alters [] (Entry.asks positionerRequests) t (t.sendAnchor up anchor offset) := by
    intro t up anchor
    unfold sendAnchor
    split
    · exact alters_requestUpstream _ _ (by decide) _
    · exact Alters.refl t
  have hsize : ∀ (t : State F) up version size,
      Alters [] (Entry.asks positionerRequests) t (t.sendParentSize up version size offset) := by
    intro t up version size
    unfold sendParentSize
    split
    · split
      · exact alters_requestUpstream _ _ (by decide) _
      · exact Alters.refl t
    · exact Alters.refl t
  unfold setPositioner
  split
  · split
    · exact (hanchor _ _ _).trans (hsize _ _ _ _)
    · exact Alters.refl s
  · exact Alters.refl s

theorem alters_offsetPositioner (s : State F) (positioner : Id) (offset : Int) :
    Alters [] (Entry.asks positionerRequests) s (s.offsetPositioner positioner offset) := by
  unfold offsetPositioner
  split
  · exact s.alters_setPositioner positioner offset
  · exact Alters.refl s

theorem alters_restorePositioner (s : State F) (positioner : Id) (offset : Int) :
    Alters [] (Entry.asks positionerRequests) s (s.restorePositioner positioner offset) := by
  unfold restorePositioner
  split
  · exact s.alters_setPositioner positioner 0
  · exact Alters.refl s

def limitRequests : List String := ["set_min_size", "set_max_size"]

private theorem alters_resendSizeLimits (s : State F) (toplevel : Option ObjectId) (min max : Int × Int)
    (offset : Int) :
    Alters [] (Entry.asks limitRequests) s (s.resendSizeLimits toplevel min max offset) := by
  have hone : ∀ (t : State F) (name : String) (limit : Int × Int), name ∈ limitRequests →
      Alters [] (Entry.asks limitRequests) t (if limit ≠ (0, 0) then
        t.requestUpstream toplevel name
          [limit.1, if limit.2 > 0 then saturate (limit.2 + offset) else limit.2] else t) := by
    intro t name limit hname
    split
    · exact alters_requestUpstream _ _ hname _
    · exact Alters.refl t
  exact (hone s "set_min_size" min (by decide)).trans (hone _ "set_max_size" max (by decide))

private theorem alters_setDestination (s : State F) (viewport : Id) (destination : Option (Int × Int))
    {N : Entry → Prop} : Alters [.surface] N s (s.setDestination viewport destination) := by
  unfold setDestination
  split
  · exact s.alters_adjustSurface _ _
  · exact Alters.refl s

private theorem alters_commitSurface (s : State F) (surface : Id) {N : Entry → Prop} :
    Alters [.surface] N s (s.commitSurface surface).1 := by
  unfold commitSurface
  split
  · exact s.alters_adjustSurface _ _
  · exact Alters.refl s

/-- The tags of what a request of this interface changes before it goes out. -/
def requestTags (iface : String) : List Tag :=
  if iface = "xdg_positioner" then [.positioner]
  else if iface = "xdg_toplevel" then [.toplevel]
  else [.surface, .bufferParams]

theorem alters_beforeRequest (s : State F) (sender : Id) (iface request : String)
    (args : List BridgeArg) :
    Alters (requestTags iface) (Entry.asks positionerRequests) s
      (s.beforeRequest E sender iface request args).1 := by
  have hsurface : ∀ {t : State F}, Alters [.surface] (Entry.asks positionerRequests) s t →
      ∀ {name : String}, name ≠ "xdg_positioner" → name ≠ "xdg_toplevel" →
        Alters (requestTags name) (Entry.asks positionerRequests) s t := by
    intro t ht name hpositioner htoplevel
    unfold requestTags
    rw [if_neg hpositioner, if_neg htoplevel]
    exact ht.mono (by simp) fun _ h => h
  have hnone : ∀ {t : State F}, Alters [] (Entry.asks positionerRequests) s t →
      ∀ {name : String}, Alters (requestTags name) (Entry.asks positionerRequests) s t :=
    fun ht _ => ht.mono (List.nil_subset _) fun _ h => h
  unfold beforeRequest
  split
  -- `wl_surface.attach` and `wl_surface.set_buffer_scale`
  case h_1 | h_2 => exact hsurface (s.alters_adjustSurface _ _) (by decide) (by decide)
  -- `wl_surface.commit`
  case h_3 =>
    apply hsurface _ (by decide) (by decide)
    dsimp only
    split
    · exact (s.alters_commitSurface sender).trans (Alters.frames _ _)
    · exact s.alters_commitSurface sender
  -- `wp_viewport.set_destination` and `wp_viewport.destroy`
  case h_4 | h_5 => exact hsurface (s.alters_setDestination _ _) (by decide) (by decide)
  -- `zwp_linux_buffer_params_v1.create`
  case h_6 =>
    dsimp only
    apply Alters.adjustRole _ _ .bufferParams (by decide)
    intro r
    cases r with
    | bufferParams size => exact ⟨rfl, fun ht => absurd rfl ht⟩
    | _ => exact ⟨rfl, fun _ => rfl⟩
  -- `xdg_surface.set_window_geometry`
  case h_7 =>
    dsimp only
    split
    · exact Alters.frames _ _
    · exact Alters.refl s
  -- `xdg_surface.get_popup` and `xdg_popup.reposition`
  case h_8 | h_9 => exact hnone (s.alters_offsetPositioner _ _)
  -- `xdg_positioner.set_anchor_rect` and `xdg_positioner.set_parent_size`
  case h_10 | h_11 =>
    dsimp only
    apply Alters.adjustRole _ _ .positioner (by decide)
    intro r
    cases r with
    | positioner anchor size => exact ⟨rfl, fun ht => absurd rfl ht⟩
    | _ => exact ⟨rfl, fun _ => rfl⟩
  -- `xdg_toplevel.set_title`
  case h_12 =>
    dsimp only
    apply (Alters.frames _ _).trans
    apply Alters.adjustRole _ _ .toplevel (by decide)
    intro r
    cases r with
    | toplevel t => exact ⟨rfl, fun ht => absurd rfl ht⟩
    | _ => exact ⟨rfl, fun _ => rfl⟩
  -- `xdg_toplevel.set_min_size` and `xdg_toplevel.set_max_size`
  case h_13 | h_14 =>
    dsimp only
    apply Alters.adjustRole _ _ .toplevel (by decide)
    intro r
    cases r with
    | toplevel t => exact ⟨rfl, fun ht => absurd rfl ht⟩
    | _ => exact ⟨rfl, fun _ => rfl⟩
  -- `xdg_toplevel.destroy`
  case h_15 => exact Alters.frames _ _
  -- Any other.
  case h_16 => exact Alters.refl s

theorem alters_addFrame {s s' : State F} {toplevel : Id} {framed : Bool}
    (h : s.addFrame E toplevel framed = some s') : Alters [] (Entry.asks limitRequests) s s' := by
  unfold addFrame at h
  split at h
  · cases h
    exact Alters.refl s
  split at h
  · split at h
    · split at h
      · split at h
        · cases h
          exact (Alters.frames _ _).trans (alters_resendSizeLimits _ _ _ _ _)
        · cases h
      · cases h
    · cases h
  · cases h

theorem alters_removeFrame (s : State F) (toplevel : Id) :
    Alters [] (Entry.asks limitRequests) s (s.removeFrame toplevel) := by
  unfold removeFrame
  split
  · dsimp only
    split
    · exact (Alters.frames _ _).trans (alters_resendSizeLimits _ _ _ _ _)
    · exact Alters.frames _ _
  · exact Alters.refl s

/-! ## Section 3: Events -/

theorem alters_rescale (s : State F) (affected : Id → Bool) {tags : List Tag} {N : Entry → Prop} :
    Alters tags N s (s.rescale E affected) :=
  Alters.foldl (fun s _ => Alters.frames s _) _ s

/-- What the proxy tells of an output. -/
def outputEvents : List String := ["mode", "logical_size", "done"]

private theorem alters_tellLogicalSize (logical : Int × Int) (s : State F) (x : Id × Nat) :
    Alters [.output] (Entry.tells outputEvents) s (s.tellLogicalSize logical x) := by
  have hsize : Alters [.output] (Entry.tells outputEvents) s
      (s.note (.own x.1 "logical_size" [.int logical.1, .int logical.2])) :=
    Alters.note s (by show "logical_size" ∈ outputEvents; decide)
  unfold tellLogicalSize
  dsimp only
  split
  · exact hsize.trans (Alters.note _ (by show "done" ∈ outputEvents; decide))
  · exact hsize

theorem alters_tellMode (s : State F) (output : Id) (done : Bool) :
    Alters [.output] (Entry.tells outputEvents) s (s.tellMode E output done) := by
  unfold tellMode
  split
  · split
    · dsimp only
      rename_i told o _ _ _ flags size refresh _
      have htold := s.alters_adjustOutput (N := Entry.tells outputEvents) output
        fun o => { o with told := some (flags, told, refresh) }
      split
      · exact htold
      · have hmode := (htold.trans (Alters.note _ (by show "mode" ∈ outputEvents; decide))).trans
          (Alters.foldl (alters_tellLogicalSize (if o.rotated then (told.2, told.1) else told))
            (s.xdgOutputs output) (State.note _ (.own output "mode"
              [.uint flags, .int told.1, .int told.2, .int refresh])))
        split
        · exact hmode.trans (Alters.note _ (by show "done" ∈ outputEvents; decide))
        · exact hmode
    · exact Alters.refl s
  · exact Alters.refl s

theorem alters_focus (s : State F) (bridge : Id) (iface event : String) (hidden : Bool)
    (args : List BridgeArg) {N : Entry → Prop} :
    Alters [.focus] N s (s.focus bridge iface event hidden args).1 := by
  unfold focus
  split
  · rename_i f hrole
    dsimp only
    apply Alters.adjustRole_of hrole
    · exact List.mem_singleton.mpr rfl
    · rfl
  · exact Alters.refl s

private theorem alters_advertise (s : State F) (bridge : Id) (args : List BridgeArg) {N : Entry → Prop} :
    Alters [.registry] N s (s.advertise E bridge args).1 := by
  unfold advertise
  dsimp only
  split
  · exact Alters.refl s
  · dsimp only
    apply Alters.adjustRole _ _ .registry List.mem_cons_self
    intro r
    cases r with
    | registry globals => exact ⟨rfl, fun ht => absurd rfl ht⟩
    | _ => exact ⟨rfl, fun _ => rfl⟩

private theorem alters_withdraw (s : State F) (bridge : Id) (name : Nat) {N : Entry → Prop} :
    Alters [.registry] N s (s.withdraw bridge name).1 := by
  unfold withdraw
  split
  · rename_i globals hrole
    dsimp only
    apply Alters.adjustRole_of hrole
    · exact List.mem_singleton.mpr rfl
    · rfl
  · exact Alters.refl s

/-- The events that say what an output is, by their interfaces. -/
def outputMessages : List (String × String) :=
  [("wl_output", "geometry"), ("wl_output", "mode"), ("wl_output", "scale"), ("wl_output", "done"),
    ("zxdg_output_v1", "logical_size"), ("zxdg_output_v1", "done")]

/-- Events that say nothing of an output change surfaces, if anything. -/
theorem alters_adjustEvent (s : State F) (bridge : Id) (iface event : String) (args : List BridgeArg)
    (hmessage : (iface, event) ∉ outputMessages) :
    Alters [.surface] (fun _ => False) s (s.adjustEvent E bridge iface event args).1 := by
  unfold adjustEvent
  split
  -- `xdg_toplevel.configure` and `xdg_toplevel.wm_capabilities`
  case h_1 | h_3 =>
    split
    · exact Alters.frames _ _
    · exact Alters.refl s
  -- `wl_surface.enter`, `wl_surface.leave` and `wl_surface.preferred_buffer_scale`
  case h_5 | h_6 | h_7 =>
    dsimp only
    exact (s.alters_adjustSurface _ _).trans (alters_rescale _ _)
  case h_2 | h_4 | h_8 | h_14 => exact Alters.refl s
  all_goals exact absurd (by decide) hmessage

/-- What is recorded before an event that says nothing of an output, or of a buffer that was
made. -/
theorem alters_beforeEvent (s : State F) (bridge : Id) {iface event : String} (hidden : Bool)
    (args : List BridgeArg) (hmessage : (iface, event) ∉ outputMessages)
    (hcreated : ¬(iface = "zwp_linux_buffer_params_v1" ∧ event = "created")) :
    Alters [.surface, .focus, .registry] (fun _ => False) s
      (s.beforeEvent E bridge iface event hidden args).1 := by
  have hmode : ¬(iface = "wl_output" ∧ event = "mode" ∧ E.scale ≠ .native ∧ uint args 0 % 2 = 1) := by
    rintro ⟨rfl, rfl, _⟩
    exact hmessage (by decide)
  unfold beforeEvent
  split
  · exact (s.alters_advertise bridge args).mono (by simp) fun _ h => h
  split
  · exact (s.alters_withdraw bridge _).mono (by simp) fun _ h => h
  exact ((alters_adjustEvent _ _ _ _ _ hmessage).mono (by simp) fun _ h => h).trans
    ((alters_focus _ _ _ _ _ _).mono (by simp) fun _ h => h)

/-- What an event of a `zxdg_output_v1` does to its output. -/
def onOutput (s : State F) (bridge : Id) (f : Id → State F) : State F :=
  match s.outputOf bridge with
  | some output => f output
  | none => s

theorem adjustEvent_logicalSize (s : State F) (bridge : Id) (args : List BridgeArg) :
    s.adjustEvent E bridge "zxdg_output_v1" "logical_size" args = (s.onOutput bridge fun output =>
      s.adjustOutput output fun o => { o with logical := some (int args 0, int args 1) }, args) := by
  show (match s.outputOf bridge with
    | some output => (s.adjustOutput output fun o => { o with logical := some (int args 0, int args 1) }, args)
    | none => (s, args)) = _
  unfold onOutput
  cases s.outputOf bridge <;> rfl

theorem adjustEvent_done (s : State F) (bridge : Id) (args : List BridgeArg) :
    s.adjustEvent E bridge "zxdg_output_v1" "done" args = (s.onOutput bridge fun output =>
      if E.scale ≠ .native then s.tellMode E output true else s, args) := by
  show (match s.outputOf bridge with
    | some output => (if E.scale ≠ XwaylandScale.native then s.tellMode E output true else s, args)
    | none => (s, args)) = _
  unfold onOutput
  cases s.outputOf bridge <;> rfl

/-- What is recorded of outputs. -/
theorem alters_outputs (s : State F) (bridge : Id) {iface event : String} (args : List BridgeArg)
    (hmessage : (iface, event) ∈ outputMessages) :
    Alters [.output] (Entry.tells outputEvents) s (s.adjustEvent E bridge iface event args).1 := by
  have htell : ∀ output done, Alters [.output] (Entry.tells outputEvents) s
      (if E.scale ≠ .native then s.tellMode E output done else s) := by
    intro output done
    split
    · exact s.alters_tellMode output done
    · exact Alters.refl s
  simp only [outputMessages, List.mem_cons, Prod.mk.injEq, List.not_mem_nil, or_false] at hmessage
  rcases hmessage with ⟨rfl, rfl⟩ | ⟨rfl, rfl⟩ | ⟨rfl, rfl⟩ | ⟨rfl, rfl⟩ | ⟨rfl, rfl⟩ | ⟨rfl, rfl⟩
  · exact s.alters_adjustOutput bridge _
  · exact Alters.refl s
  · exact (s.alters_adjustOutput bridge _).trans (alters_rescale _ _)
  · exact htell bridge false
  · rw [adjustEvent_logicalSize]
    unfold onOutput
    cases s.outputOf bridge with
    | none => exact Alters.refl s
    | some output => exact s.alters_adjustOutput output _
  · rw [adjustEvent_done]
    unfold onOutput
    cases s.outputOf bridge with
    | none => exact Alters.refl s
    | some output => exact htell output true

/-- What is recorded before any event but one for a buffer that was made. -/
theorem alters_beforeEvent_of_not_created (s : State F) (bridge : Id) {iface event : String} (hidden : Bool)
    (args : List BridgeArg) (hcreated : ¬(iface = "zwp_linux_buffer_params_v1" ∧ event = "created")) :
    Alters [.surface, .focus, .registry, .output] (Entry.tells outputEvents) s
      (s.beforeEvent E bridge iface event hidden args).1 := by
  by_cases hmessage : (iface, event) ∈ outputMessages
  · have hregistry : iface ≠ "wl_registry" := by
      rintro rfl
      simp [outputMessages] at hmessage
    unfold beforeEvent
    rw [if_neg fun h => hregistry h.1, if_neg fun h => hregistry h.1]
    split
    · -- A current mode
      have hmode : ∀ f, Alters [.surface, .focus, .registry, .output] (Entry.tells outputEvents) s
          (s.adjustOutput bridge f) :=
        fun f => (s.alters_adjustOutput bridge f).mono (by simp) fun _ h => h
      dsimp only
      split
      · exact hmode _
      · exact (hmode _).trans ((alters_focus _ _ _ _ _ _).mono (by simp) fun _ h => h)
    exact ((s.alters_outputs bridge args hmessage).mono (by simp) fun _ h => h).trans
      ((alters_focus _ _ _ _ _ _).mono (by simp) fun _ h => h)
  · exact (s.alters_beforeEvent bridge hidden args hmessage hcreated).mono (by simp) fun _ h => h.elim

theorem alters_close (s : State F) (toplevel : Id) :
    Alters [] (Entry.tells ["close"]) s (s.close toplevel) := by
  unfold close
  split
  · exact Alters.note _ (by show "close" ∈ _; simp)
  · exact Alters.refl s

/-! ## Section 4: Serial Numbers -/

/-- The objects there have serial numbers of their own, less than how many objects there
were. -/
structure Serials (s : State F) : Prop where
  lt : ∀ id o, s.obj id = some o → o.born < s.births
  inj : ∀ id id' o o', s.obj id = some o → s.obj id' = some o' → o.born = o'.born → id = id'

namespace Serials

variable {s s' : State F}

/-- Some of the same objects, changed in what no serial number is of. -/
theorem of_born (h : s.Serials)
    (hborn : ∀ id o', s'.obj id = some o' → ∃ o, s.obj id = some o ∧ o.born = o'.born)
    (hbirths : s'.births = s.births) : s'.Serials := by
  refine ⟨fun id o' ho' => ?_, fun id id' o₁ o₂ ho₁ ho₂ hsame => ?_⟩
  · obtain ⟨o, ho, hb⟩ := hborn id o' ho'
    rw [hbirths, ← hb]
    exact h.lt id o ho
  · obtain ⟨o, ho, hb⟩ := hborn id o₁ ho₁
    obtain ⟨o', ho', hb'⟩ := hborn id' o₂ ho₂
    exact h.inj id id' o o' ho ho' (hb.trans (hsame.trans hb'.symm))

theorem of_quiet (h : s.Serials) (hq : Quiet s s') : s'.Serials := by
  apply h.of_born _ hq.births
  intro id o' ho'
  have hborn := hq.born id
  rw [ho'] at hborn
  exact Option.map_eq_some_iff.mp hborn.symm

theorem same (h : s.Serials) (hobj : ∀ id, s'.obj id = s.obj id) (hbirths : s'.births = s.births) :
    s'.Serials :=
  h.of_born (fun id o' ho' => ⟨o', hobj id ▸ ho', rfl⟩) hbirths

theorem create (h : s.Serials) (origin : Origin) (id : Id) (iface : Interface) (version : Nat)
    (kind : Kind) (role : Role) : (s.create origin id iface version kind role).Serials := by
  have hcases : ∀ j o, (s.create origin id iface version kind role).obj j = some o →
      j = id ∧ o.born = s.births ∨ s.obj j = some o := by
    intro j o ho
    rw [obj_create] at ho
    split at ho
    · rename_i hj
      rw [← Option.some.inj ho]
      exact .inl ⟨hj, rfl⟩
    · exact .inr ho
  refine ⟨fun j o ho => ?_, fun j j' o o' ho ho' hsame => ?_⟩
  · show o.born < s.births + 1
    rcases hcases j o ho with ⟨_, hborn⟩ | ho
    · omega
    · exact Nat.lt_succ_of_lt (h.lt j o ho)
  · -- The new object's number is more than those before it.
    rcases hcases j o ho with ⟨rfl, hborn⟩ | ho <;> rcases hcases j' o' ho' with ⟨rfl, hborn'⟩ | ho'
    · rfl
    · have := h.lt j' o' ho'
      omega
    · have := h.lt j o (by assumption)
      omega
    · exact h.inj j j' o o' ho ho' hsame

theorem creates (h : s.Serials) {args : List BridgeArg} (hc : Creates args s s') : s'.Serials := by
  cases hc with
  | nothing hs =>
      rw [hs]
      exact h
  | new id iface version kind role data _ _ _ _ _ hs =>
      rw [hs]
      exact (h.create .bridge id iface version kind role).same (fun _ => rfl) rfl

theorem ends (h : s.Serials) {id : Id} (he : Ends id s s') : s'.Serials := by
  cases he with
  | nothing hs =>
      rw [hs]
      exact h
  | gone _ hs =>
      rw [hs]
      apply h.of_born
      · intro j o ho
        rw [obj_deleteId, obj_destroy] at ho
        split at ho
        · cases ho
        · exact ⟨o, ho, rfl⟩
      · unfold deleteId
        split <;> rfl

theorem requested (h : s.Serials) {m : Request} (hr : Requested m s s') : s'.Serials := by
  obtain ⟨t, u, v, hbefore, hcreates, hafter, hends⟩ := hr.parts
  exact (((h.of_quiet hbefore).creates hcreates).of_quiet hafter).ends hends

theorem receive (h : s.Serials) (desc : MessageDesc) (version : Nat) (alive : ObjectId → Bool)
    (args : List UpstreamArg) : (s.receive E desc version alive args).1.Serials := by
  apply receive_induction (P := State.Serials)
  · intro t iface up ht
    have hnext : State.Serials { t with nextServerId := t.nextServerId + 1 } := ht.same (fun _ => rfl) rfl
    exact hnext.create _ _ _ _ _ _
  · intro t ht
    exact ht.same (fun _ => rfl) rfl
  · exact h

theorem delivered {bridge : Id} {iface : Interface} {desc : MessageDesc} {e : Event} {input : Incoming}
    {out : State F × List BridgeArg × Bool} (h : out.1.Serials)
    (hd : Delivered s s' bridge iface desc e input out) : s'.Serials := by
  obtain ⟨data, t, hends, hs⟩ := hd.parts
  have hnoted : Serials (if out.2.2 then
      out.1.note (.event bridge e.sender desc.name e.args out.2.1) else out.1) := by
    split
    · exact h.same (fun _ => rfl) rfl
    · exact h
  rw [hs]
  exact (hnoted.ends hends).same (fun _ => rfl) rfl

theorem step (h : s.Serials) (hkept : s.IdsKept) {a : Action} (ha : step E s a = some s') :
    s'.Serials := by
  cases a with
  | request m answer => exact h.requested (requested_of_step ha)
  | event e =>
      cases ha
      rcases s.event_cases (E := E) e with ⟨_, hs⟩ | ⟨bridge, o, desc, ht, ⟨_, hs⟩ | ⟨input, _, hs⟩⟩
      · rw [hs]
        exact h
      · rw [hs]
        exact h.receive desc o.version e.alive e.args
      · have hsome := isSome_of_upstream (hkept.receive_upstream (E := E) ht)
        have hd := delivered_deliver (E := E) hsome o.iface desc e input
        rw [hs]
        exact ((h.receive (E := E) desc o.version e.alive e.args).of_quiet hd.quiet).delivered hd
  | setOutput global geometry =>
      cases ha
      exact h.of_quiet (s.still_setOutput global geometry).toQuiet
  | close toplevel =>
      cases ha
      exact h.of_quiet (s.still_close toplevel).toQuiet

end Serials

theorem serials_initial (F : Type) (E : Setting F) : (State.initial F E).Serials := by
  have hdisplay : ∀ id o, (State.initial F E).obj id = some o → id = displayId ∧ o.born = 0 := by
    intro id o ho
    rw [obj_initial] at ho
    split at ho
    · rename_i hid
      rw [← Option.some.inj ho]
      exact ⟨hid, rfl⟩
    · cases ho
  refine ⟨fun id o ho => ?_, fun id id' o o' ho ho' _ => ?_⟩
  · rw [(hdisplay id o ho).2]
    exact Nat.one_pos
  · exact (hdisplay id o ho).1.trans (hdisplay id' o' ho').1.symm

end State

end Psbox.Decorations
