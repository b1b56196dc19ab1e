import Psbox.Decorations.Codec
import Psbox.Decorations.Effects
import Mathlib.Data.Finset.Dedup
import Mathlib.Data.PNat.Basic

/-!
# Frames

`Frame` of `decorations/frame.rs`: a title bar and borders that a library draws around a window,
with the window geometry that takes them in. The library is a parameter. What the proxy relies on is
in `Library.Lawful`: only new states move the frame, and it never goes below the window's top.
-/

namespace Psbox.Decorations

/-! ## Section 1: States and Capabilities -/

/-- `WindowState`, as a set of flags. -/
inductive WindowFlag where
  | maximized
  | fullscreen
  | resizing
  | activated
  | tiledLeft
  | tiledRight
  | tiledTop
  | tiledBottom
  | suspended
  deriving DecidableEq, Repr

/-- `WindowManagerCapabilities`, as a set of flags. -/
inductive Capability where
  | windowMenu
  | maximize
  | fullscreen
  | minimize
  deriving DecidableEq, Repr

/-- The words of an array. -/
def words (big : Bool) : List UInt8 → List UInt32
  | a :: b :: c :: d :: rest => neNumber big [a, b, c, d] :: words big rest
  | _ => []

def windowFlag : UInt32 → Option WindowFlag
  | 1 => some .maximized
  | 2 => some .fullscreen
  | 3 => some .resizing
  | 4 => some .activated
  | 5 => some .tiledLeft
  | 6 => some .tiledRight
  | 7 => some .tiledTop
  | 8 => some .tiledBottom
  | 9 => some .suspended
  | _ => none

def capability : UInt32 → Option Capability
  | 1 => some .windowMenu
  | 2 => some .maximize
  | 3 => some .fullscreen
  | 4 => some .minimize
  | _ => none

/-- `xdg_toplevel` states, from a `configure` event's array. -/
def windowState (big : Bool) (states : List UInt8) : Finset WindowFlag :=
  ((words big states).filterMap windowFlag).toFinset

/-- What the compositor offers, from a `wm_capabilities` event's array. -/
def capabilities (big : Bool) (caps : List UInt8) : Finset Capability :=
  ((words big caps).filterMap capability).toFinset

/-! ## Section 2: The Library -/

/-- `AdwaitaFrame`, as far as the proxy uses it. -/
structure Library (A : Type) where
  /-- The byte order of the machine. -/
  big : Bool := false
  fresh : A
  setTitle : String → A → A
  setScalingFactor : Int → A → A
  updateState : Finset WindowFlag → A → A
  updateCapabilities : Finset Capability → A → A
  subtractBorders : ℕ+ → ℕ+ → A → Option ℕ+ × Option ℕ+
  addBorders : Nat → Nat → A → Nat × Nat
  location : A → Int × Int
  resize : ℕ+ → ℕ+ → A → A
  isDirty : A → Bool
  draw : A → A

/-- What the proxy relies on: the frame is moved by new states and by nothing else, and its title
bar is above the window. -/
structure Library.Lawful {A : Type} (L : Library A) : Prop where
  setTitle : ∀ title a, L.location (L.setTitle title a) = L.location a
  setScalingFactor : ∀ scale a, L.location (L.setScalingFactor scale a) = L.location a
  updateCapabilities : ∀ caps a, L.location (L.updateCapabilities caps a) = L.location a
  resize : ∀ w h a, L.location (L.resize w h a) = L.location a
  draw : ∀ a, L.location (L.draw a) = L.location a
  above : ∀ a, (L.location a).2 ≤ 0

/-- `as i32`. -/
def asI32 (n : Nat) : Int :=
  (n : Int).bmod (2 ^ 32)

def maxSize : Nat := 32767

/-- A size from the bridge, in `1..=maxSize`; `none` when it has none. -/
def clampSize (v : Int) : Option ℕ+ :=
  if h : 0 < v then some ⟨min v.toNat maxSize, by unfold maxSize; omega⟩ else none

/-! ## Section 3: Windows -/

abbrev Geometry := Int × Int × Int × Int

/-- A frame of the source, apart from what the proxy tracks of it. -/
structure Window (A : Type) where
  inner : A
  /-- The window's size without the frame, once it has content. -/
  content : Option (ℕ+ × ℕ+) := none
  /-- The window geometry last set, which includes the title bar. -/
  geometry : Option Geometry := none

namespace Window

variable {A : Type} (L : Library A)

/-- The height of the title bar, 0 while it is not shown. -/
def offset (w : Window A) : Int :=
  -(L.location w.inner).2

def setTitle (title : String) (w : Window A) : Window A :=
  { w with inner := L.setTitle title w.inner }

def setScale (scale : Int) (w : Window A) : Window A :=
  { w with inner := L.setScalingFactor (max scale 1) w.inner }

/-- Takes the toplevel's new states, and returns the size to pass on to the bridge. -/
def configure (states : List UInt8) (width height : Int) (w : Window A) : Window A × Int × Int :=
  let w := { w with inner := L.updateState (windowState L.big states) w.inner }
  if h : 0 < width ∧ 0 < height then
    match L.subtractBorders ⟨width.toNat, by omega⟩ ⟨height.toNat, by omega⟩ w.inner with
    | (some width, some height) => (w, asI32 width, asI32 height)
    | (some width, none) => (w, asI32 width, 1)
    | _ => (w, width, height)
  else (w, width, height)

def setCapabilities (caps : List UInt8) (w : Window A) : Window A :=
  { w with inner := L.updateCapabilities (capabilities L.big caps) w.inner }

/-- The window geometry that takes in the frame around `bridge`. -/
def framed (a : A) (bridge : Geometry) : Geometry :=
  let (x, y, bw, bh) := bridge
  let (lx, ly) := L.location a
  let (gw, gh) := L.addBorders ((clampSize bw).getD 1) ((clampSize bh).getD 1) a
  (saturate (x + lx), saturate (y + ly), asI32 gw, asI32 gh)

/-- Follows the size of the window's surface. -/
def follow (size : Option (Int × Int)) (w : Window A) : Window A :=
  match size.bind fun size => (clampSize size.1).bind fun width =>
      (clampSize size.2).map fun height => (width, height) with
  | some size =>
      if w.content ≠ some size then
        { w with inner := L.resize size.1 size.2 w.inner, content := some size }
      else w
  | none => w

/-- The geometry the bridge asked for, or the whole surface. -/
def wanted (bridge : Option Geometry) (size : ℕ+ × ℕ+) : Geometry :=
  bridge.getD (0, 0, asI32 size.1, asI32 size.2)

/-- Draws what changed. -/
def drawn (w : Window A) : Window A :=
  if L.isDirty w.inner then { w with inner := L.draw w.inner } else w

/-- Before the window's surface commits: follows its size, draws what changed, and sets the window
geometry, which is the second result, to take in the title bar. -/
def commit (size : Option (Int × Int)) (bridge : Option Geometry) (w : Window A) :
    Window A × Option Geometry :=
  let w := w.follow L size
  match w.content with
  | none => (w, none)
  | some size =>
      let w := w.drawn L
      let geometry := framed L w.inner (wanted bridge size)
      if w.geometry ≠ some geometry then ({ w with geometry := some geometry }, some geometry)
      else (w, none)

/-- Draws what changed since the window's last commit. -/
def redraw (w : Window A) : Window A :=
  if w.content.isSome then w.drawn L else w

/-- Takes the frame off its window: the window geometry that is set then. -/
def remove (bridge : Option Geometry) (w : Window A) : Option Geometry :=
  if w.geometry.isSome then w.content.map fun size => wanted bridge size else none

end Window

/-- The drawing of title bars by a library. -/
def Library.drawing {A : Type} (L : Library A) : Drawing (Window A) where
  fresh := { inner := L.fresh }
  offset := Window.offset L
  setTitle := Window.setTitle L
  setScale := Window.setScale L
  configure := Window.configure L
  setCapabilities := Window.setCapabilities L
  commit := fun size bridge w => (w.commit L size bridge).1
  redraw := Window.redraw L

/-! ## Section 4: The Height of a Title Bar -/

/-- Only new states change the height of a title bar. -/
structure Drawing.Steady {F : Type} (d : Drawing F) : Prop where
  setTitle : ∀ title f, d.offset (d.setTitle title f) = d.offset f
  setScale : ∀ scale f, d.offset (d.setScale scale f) = d.offset f
  setCapabilities : ∀ caps f, d.offset (d.setCapabilities caps f) = d.offset f
  commit : ∀ size bridge f, d.offset (d.commit size bridge f) = d.offset f
  redraw : ∀ f, d.offset (d.redraw f) = d.offset f
  nonneg : ∀ f, 0 ≤ d.offset f

theorem Library.Lawful.steady {A : Type} {L : Library A} (h : L.Lawful) : L.drawing.Steady := by
  have hoffset : ∀ {w w' : Window A}, L.location w'.inner = L.location w.inner →
      w'.offset L = w.offset L := by
    intro w w' hsame
    unfold Window.offset
    rw [hsame]
  have hfollow : ∀ size (w : Window A), (w.follow L size).offset L = w.offset L := by
    intro size w
    unfold Window.follow
    split
    · split
      · exact hoffset (h.resize _ _ _)
      · rfl
    · rfl
  have hdrawn : ∀ w : Window A, (w.drawn L).offset L = w.offset L := by
    intro w
    unfold Window.drawn
    split
    · exact hoffset (h.draw _)
    · rfl
  refine ⟨fun title w => hoffset (h.setTitle _ _), fun scale w => hoffset (h.setScalingFactor _ _),
    fun caps w => hoffset (h.updateCapabilities _ _), fun size bridge w => ?_, fun w => ?_, fun w => ?_⟩
  · show ((w.commit L size bridge).1).offset L = w.offset L
    rw [← hfollow size w]
    unfold Window.commit
    dsimp only
    split
    · rfl
    · split
      · exact hdrawn _
      · exact hdrawn _
  · show (w.redraw L).offset L = w.offset L
    unfold Window.redraw
    split
    · exact hdrawn w
    · rfl
  · show 0 ≤ -(L.location w.inner).2
    have := h.above w.inner
    omega

namespace State

variable {F : Type} {E : Setting F} {s s' : State F}

theorem frameOffset_of_frames (h : s'.frames = s.frames) (id : Id) :
    s'.frameOffset E id = s.frameOffset E id := by
  rw [frameOffset, frameOffset, h]

private theorem frameOffset_adjustFrame (toplevel : Id) {f : Frame F → Frame F}
    (hf : ∀ x, E.drawing.offset (f x).drawn = E.drawing.offset x.drawn) (id : Id) :
    (s.adjustFrame toplevel f).frameOffset E id = s.frameOffset E id := by
  unfold frameOffset adjustFrame
  rw [Table.lookup_adjust]
  split
  · rw [Option.map_map]
    congr 2
    exact funext hf
  · rfl

private theorem frameOffset_rescale (h : E.drawing.Steady) (affected : Id → Bool) (id : Id) :
    (s.rescale E affected).frameOffset E id = s.frameOffset E id := by
  unfold rescale
  generalize ((s.frames.entries.filter fun e => affected e.2.surface.id).map fun e =>
    (e.1, s.surfaceScale e.2.surface.id)) = changes
  induction changes generalizing s with
  | nil => rfl
  | cons change changes ih =>
      rw [List.foldl_cons, ih]
      exact frameOffset_adjustFrame _ (fun f => h.setScale _ _) id

theorem frameOffset_nonneg (h : E.drawing.Steady) (id : Id) : 0 ≤ s.frameOffset E id := by
  unfold frameOffset
  cases s.frames.lookup id with
  | none => exact le_refl 0
  | some f => exact h.nonneg f.drawn

/-- Title bars keep their heights before a request, but for the one of a toplevel that goes. -/
theorem frameOffset_beforeRequest (h : E.drawing.Steady) (sender : Id) {iface request : String}
    (args : List BridgeArg) (hgoes : ¬(iface = "xdg_toplevel" ∧ request = "destroy")) (id : Id) :
    (s.beforeRequest E sender iface request args).1.frameOffset E id = s.frameOffset E id := by
  have hset : ∀ (t : State F) p k, (t.setPositioner p k).frames = t.frames := by
    intro t p k
    have hask : ∀ (t : State F) up name as, (t.requestUpstream up name as).frames = t.frames := by
      intro t up name as
      cases up <;> rfl
    have hanchor : ∀ (t : State F) up a k, (t.sendAnchor up a k).frames = t.frames := by
      intro t up a k
      unfold sendAnchor
      split
      · exact hask _ _ _ _
      · rfl
    have hsize : ∀ (t : State F) up v a k, (t.sendParentSize up v a k).frames = t.frames := by
      intro t up v a k
      unfold sendParentSize
      split
      · split
        · exact hask _ _ _ _
        · rfl
      · rfl
    unfold setPositioner
    split
    · split
      · rw [hsize, hanchor]
      · rfl
    · rfl
  have hcommit : ∀ surface, (s.commitSurface surface).1.frames = s.frames := by
    intro surface
    unfold commitSurface
    split <;> rfl
  unfold beforeRequest
  split
  -- `wl_surface.commit`
  case h_3 =>
    dsimp only
    split
    · rw [frameOffset_adjustFrame _ fun f => h.commit _ _ _]
      exact frameOffset_of_frames (hcommit sender) id
    · exact frameOffset_of_frames (hcommit sender) id
  -- `wp_viewport.set_destination` and `wp_viewport.destroy`
  case h_4 | h_5 =>
    apply frameOffset_of_frames
    dsimp only
    unfold setDestination
    split <;> rfl
  -- `xdg_surface.set_window_geometry`
  case h_7 =>
    dsimp only
    split
    · apply frameOffset_adjustFrame
      intro f
      rfl
    · rfl
  -- `xdg_surface.get_popup` and `xdg_popup.reposition`
  case h_8 | h_9 =>
    apply frameOffset_of_frames
    dsimp only
    unfold offsetPositioner
    split
    · exact hset _ _ _
    · rfl
  -- `xdg_toplevel.set_title`
  case h_12 =>
    dsimp only
    exact frameOffset_adjustFrame (s := s) sender (fun f => (h.redraw _).trans (h.setTitle _ _)) id
  -- `xdg_toplevel.destroy`
  case h_15 => exact absurd ⟨rfl, rfl⟩ hgoes
  all_goals rfl

/-- The height of a toplevel's title bar once it has new states and a size. -/
def heightAfter (E : Setting F) (s : State F) (toplevel : Id) (width height : Int) (states : List UInt8) : Int :=
  ((s.frames.lookup toplevel).map fun f =>
    E.drawing.offset (E.drawing.configure states width height f.drawn).1).getD 0

theorem frames_tellMode (s : State F) (output : Id) (done : Bool) :
    (s.tellMode E output done).frames = s.frames := by
  have hfold : ∀ (logical : Int × Int) (xs : List (Id × Nat)) (t : State F),
      (xs.foldl (tellLogicalSize logical) t).frames = t.frames := by
    intro logical xs
    induction xs with
    | nil => exact fun _ => rfl
    | cons x xs ih =>
        intro t
        rw [List.foldl_cons, ih]
        unfold tellLogicalSize
        dsimp only
        split <;> rfl
  unfold tellMode
  split
  · split
    · dsimp only
      split
      · rfl
      · split
        · exact hfold _ _ _
        · exact hfold _ _ _
    · rfl
  · rfl

theorem frames_focus (s : State F) (bridge : Id) (iface event : String) (hidden : Bool)
    (args : List BridgeArg) : (s.focus bridge iface event hidden args).1.frames = s.frames := by
  unfold focus
  split <;> rfl

/-- Title bars keep their heights at an event, but for a toplevel with new states. -/
theorem frameOffset_adjustEvent (h : E.drawing.Steady) (bridge : Id) {iface event : String}
    (args : List BridgeArg) (hstates : ¬(iface = "xdg_toplevel" ∧ event = "configure")) (id : Id) :
    (s.adjustEvent E bridge iface event args).1.frameOffset E id = s.frameOffset E id := by
  unfold adjustEvent
  split
  -- `xdg_toplevel.configure`
  case h_1 => exact absurd ⟨rfl, rfl⟩ hstates
  -- `xdg_toplevel.wm_capabilities`
  case h_3 =>
    split
    · exact frameOffset_adjustFrame _ (fun f => h.setCapabilities _ _) id
    · rfl
  -- `wl_surface.enter`, `wl_surface.leave`, `wl_surface.preferred_buffer_scale` and `wl_output.scale`
  case h_5 | h_6 | h_7 | h_13 =>
    dsimp only
    exact frameOffset_rescale h _ id
  -- `wl_output.done`
  case h_10 =>
    dsimp only
    split
    · exact frameOffset_of_frames (frames_tellMode _ _ _) id
    · rfl
  -- `zxdg_output_v1.done`
  case h_11 =>
    split
    · dsimp only
      split
      · exact frameOffset_of_frames (frames_tellMode _ _ _) id
      · rfl
    · rfl
  -- `zxdg_output_v1.logical_size`
  case h_12 => split <;> rfl
  all_goals rfl

theorem frameOffset_beforeEvent (h : E.drawing.Steady) (bridge : Id) {iface event : String} (hidden : Bool)
    (args : List BridgeArg) (hstates : ¬(iface = "xdg_toplevel" ∧ event = "configure")) (id : Id) :
    (s.beforeEvent E bridge iface event hidden args).1.frameOffset E id = s.frameOffset E id := by
  have hfocus : ∀ (t : State F) args, (t.focus bridge iface event hidden args).1.frameOffset E id =
      t.frameOffset E id := fun t args => frameOffset_of_frames (frames_focus _ _ _ _ _ _) id
  unfold beforeEvent
  split
  · unfold advertise
    dsimp only
    split <;> rfl
  split
  · unfold withdraw
    dsimp only
    split <;> rfl
  split
  · dsimp only
    split
    · rfl
    · exact hfocus _ _
  split
  · split
    · dsimp only
      exact hfocus _ _
    · rfl
  · exact (hfocus _ _).trans (frameOffset_adjustEvent h _ _ hstates id)

private theorem adjustEvent_configure (s : State F) (bridge : Id) (args : List BridgeArg) :
    s.adjustEvent E bridge "xdg_toplevel" "configure" args = match s.frames.lookup bridge with
      | some f =>
          let states : List UInt8 := match args[2]? with
            | some (Arg.array bytes) => bytes
            | _ => []
          let out := E.drawing.configure states (int args 0) (int args 1) f.drawn
          (s.adjustFrame bridge fun f => { f with drawn := out.1 },
            (args.set 0 (.int out.2.1)).set 1 (.int out.2.2))
      | none => (s, args) := rfl

theorem beforeEvent_configure (s : State F) (bridge : Id) (hidden : Bool) (args : List BridgeArg) :
    s.beforeEvent E bridge "xdg_toplevel" "configure" hidden args =
      let adjusted := s.adjustEvent E bridge "xdg_toplevel" "configure" args
      let out := adjusted.1.focus bridge "xdg_toplevel" "configure" hidden adjusted.2
      (out.1, adjusted.2, out.2) := by
  unfold beforeEvent
  simp

/-- A toplevel's new states change its title bar, and no other. -/
theorem adjustEvent_configure_frames (s : State F) (bridge : Id) (width height : Int) (states : List UInt8) :
    ∃ frames, (s.adjustEvent E bridge "xdg_toplevel" "configure" [.int width, .int height, .array states]).1 =
        { s with frames := frames } ∧
      (∀ id, id ≠ bridge → frames.lookup id = s.frames.lookup id) ∧
      ({ s with frames := frames } : State F).frameOffset E bridge = s.heightAfter E bridge width height states := by
  rw [adjustEvent_configure]
  cases hframe : s.frames.lookup bridge with
  | none =>
      refine ⟨s.frames, rfl, fun _ _ => rfl, ?_⟩
      unfold heightAfter frameOffset
      rw [hframe]
      rfl
  | some f =>
      refine ⟨_, rfl, fun id hid => ?_, ?_⟩
      · rw [Table.lookup_adjust, if_neg hid]
      · unfold heightAfter frameOffset
        dsimp only
        rw [Table.lookup_adjust, if_pos rfl, hframe]
        rfl

end State

/-! ## Section 5: A Library -/

/-- Title bars of one height, and none while fullscreen, which is all their state. -/
def plainTitles (height : Nat) : Library Bool where
  fresh := false
  setTitle := fun _ a => a
  setScalingFactor := fun _ a => a
  updateState := fun flags _ => decide (.fullscreen ∈ flags)
  updateCapabilities := fun _ a => a
  subtractBorders := fun w h a =>
    if a then (some w, some h)
    else (some w, if hh : height < h then some ⟨h - height, Nat.sub_pos_of_lt hh⟩ else none)
  addBorders := fun w h a => (w, if a then h else h + height)
  location := fun a => (0, if a then 0 else -height)
  resize := fun _ _ a => a
  isDirty := fun _ => false
  draw := fun a => a

theorem plainTitles_lawful (height : Nat) : (plainTitles height).Lawful := by
  refine ⟨fun _ _ => rfl, fun _ _ => rfl, fun _ _ => rfl, fun _ _ _ => rfl, fun _ => rfl, fun a => ?_⟩
  show (if a then (0 : Int) else -height) ≤ 0
  split <;> omega

/-- The interfaces of windows and their popups. -/
def windowTable (name : String) : Interface :=
  { name := name
    version := 6
    requests := match name with
      | "wl_display" => [{ name := "sync", signature := [.newId], childInterface := some "wl_callback" },
          { name := "get_registry", signature := [.newId], childInterface := some "wl_registry" }]
      | "wl_registry" => [{ name := "bind", signature := [.uint, .str false, .uint, .newId] }]
      | "wl_compositor" =>
          [{ name := "create_surface", signature := [.newId], childInterface := some "wl_surface" }]
      | "wl_shm" => [{ name := "create_pool", signature := [.newId, .fd, .int],
                       childInterface := some "wl_shm_pool" }]
      | "wl_shm_pool" => [{ name := "create_buffer", signature := [.newId, .int, .int, .int, .int, .uint],
                            childInterface := some "wl_buffer" }]
      | "wl_surface" => [{ name := "destroy", isDestructor := true },
          { name := "attach", signature := [.object true, .int, .int], argInterfaces := ["wl_buffer"] },
          { name := "commit" }]
      | "xdg_wm_base" => [{ name := "create_positioner", signature := [.newId],
                            childInterface := some "xdg_positioner" },
          { name := "get_xdg_surface", signature := [.newId, .object false],
            argInterfaces := ["wl_surface"], childInterface := some "xdg_surface" }]
      | "xdg_surface" => [{ name := "get_toplevel", signature := [.newId], childInterface := some "xdg_toplevel" },
          { name := "get_popup", signature := [.newId, .object true, .object false],
            argInterfaces := ["xdg_surface", "xdg_positioner"], childInterface := some "xdg_popup" },
          { name := "set_window_geometry", signature := [.int, .int, .int, .int] }]
      | "xdg_toplevel" => [{ name := "destroy", isDestructor := true },
          { name := "set_max_size", signature := [.int, .int] },
          { name := "set_min_size", signature := [.int, .int] }]
      | "xdg_positioner" => [{ name := "destroy", isDestructor := true },
          { name := "set_anchor_rect", signature := [.int, .int, .int, .int] },
          { name := "set_parent_size", since := 3, signature := [.int, .int] }]
      | "xdg_popup" => [{ name := "destroy", isDestructor := true },
          { name := "reposition", since := 3, signature := [.object false, .uint],
            argInterfaces := ["xdg_positioner"] }]
      | "zxdg_decoration_manager_v1" => [{ name := "destroy", isDestructor := true },
          { name := "get_toplevel_decoration", signature := [.newId, .object false],
            argInterfaces := ["xdg_toplevel"], childInterface := some "zxdg_toplevel_decoration_v1" }]
      | "zxdg_toplevel_decoration_v1" => [{ name := "destroy", isDestructor := true },
          { name := "set_mode", signature := [.uint] }, { name := "unset_mode" }]
      | _ => []
    events := match name with
      | "wl_registry" => [{ name := "global", signature := [.uint, .str false, .uint] }]
      | "xdg_toplevel" => [{ name := "configure", signature := [.int, .int, .array] }]
      | "xdg_popup" => [{ name := "configure", signature := [.int, .int, .int, .int] },
          { name := "popup_done" }, { name := "repositioned", since := 3, signature := [.uint] }]
      | _ => [] }

/-- Title bars of 35, where the compositor draws none. -/
def windowSetting : Setting (Window Bool) where
  table := windowTable
  drawing := (plainTitles 35).drawing
  decorate := true
  scale := .native
  wholeRatio := fun _ _ => 1

/-- A toplevel, with a decoration of its own. -/
def windowOpens : List Action :=
  [.request ⟨displayId, 1, [.newId 2]⟩ ⟨some 10, true⟩,
    .event { sender := 10, opcode := 0, args := [.uint 1, .str (some "wl_compositor"), .uint 6] },
    .event { sender := 10, opcode := 0, args := [.uint 2, .str (some "xdg_wm_base"), .uint 6] },
    .event { sender := 10, opcode := 0, args := [.uint 3, .str (some "wl_shm"), .uint 1] },
    .request ⟨2, 0, [.uint 1, .str (some "wl_compositor"), .uint 6, .newId 3]⟩ ⟨some 11, true⟩,
    .request ⟨2, 0, [.uint 2, .str (some "xdg_wm_base"), .uint 6, .newId 4]⟩ ⟨some 12, true⟩,
    .request ⟨2, 0, [.uint decorationGlobal, .str (some decorationManagerName), .uint 1, .newId 5]⟩ ⟨none, true⟩,
    .request ⟨3, 0, [.newId 6]⟩ ⟨some 13, true⟩,
    .request ⟨4, 1, [.newId 7, .object 6]⟩ ⟨some 14, true⟩,
    .request ⟨7, 0, [.newId 8]⟩ ⟨some 15, true⟩,
    .request ⟨5, 1, [.newId 9, .object 8]⟩ ⟨none, true⟩]

end Psbox.Decorations
