import Psbox.Decorations.Wire

/-!
# The State of the Decoration Proxy

The objects of the bridge and what the proxy tracks about them
(`decorations/proxy.rs`), with the log of what happens to them.

Where the code records an id inside another object's role, the model records a `Ref`:
the id, and which object it denoted then. The second half is proof-only: no definition
of the proxy reads it, and it is there to say when a recorded id has come to denote
another object.
-/

namespace Psbox.Decorations

/-! ## Section 1: Tables -/

/-- A `HashMap` from numbers. -/
abbrev Table (ν : Type) := AList fun _ : Nat => ν

/-- `if let Some(v) = t.get_mut(&k)`. -/
def Table.adjust {ν : Type} (k : Nat) (f : ν → ν) (t : Table ν) : Table ν :=
  match t.lookup k with
  | some v => t.insert k (f v)
  | none => t

theorem Table.lookup_adjust {ν : Type} (k j : Nat) (f : ν → ν) (t : Table ν) :
    (Table.adjust k f t).lookup j = if j = k then (t.lookup j).map f else t.lookup j := by
  unfold Table.adjust
  cases hk : t.lookup k with
  | none =>
      by_cases hj : j = k
      · rw [if_pos hj, hj, hk]
        rfl
      · rw [if_neg hj]
  | some v =>
      by_cases hj : j = k
      · rw [if_pos hj, hj, hk]
        exact AList.lookup_insert t
      · rw [if_neg hj]
        exact AList.lookup_insert_ne hj

/-! ## Section 2: Roles -/

/-- A recorded id. `born` is the serial number of the object it denoted when it was
recorded, if it denoted one. -/
structure Ref where
  id : Id
  born : Option Nat
  deriving DecidableEq, Repr

/-- A `wl_surface`'s size state, double-buffered as the protocol has it. -/
structure Surface where
  attached : Option Ref := none
  pendingAttach : Option (Option Ref) := none
  scale : Int := 1
  pendingScale : Option Int := none
  destination : Option (Int × Int) := none
  pendingDestination : Option (Option (Int × Int)) := none
  preferredScale : Option Int := none
  outputs : List Ref := []
  deriving DecidableEq, Repr

/-- A mode of an output: its flags, size and refresh rate. -/
abbrev Mode := Nat × (Int × Int) × Int

/-- What the compositor said about a `wl_output` of the bridge's. -/
structure Output where
  /-- The output's global name. -/
  global : Nat := 0
  scale : Option Int := none
  /-- Turned a quarter. -/
  rotated : Bool := false
  logical : Option (Int × Int) := none
  /-- The current mode, held until `done`. -/
  mode : Option Mode := none
  /-- The mode the bridge was last told. -/
  told : Option Mode := none
  deriving DecidableEq, Repr

structure Toplevel where
  xdgSurface : Ref
  title : Option String := none
  min : Int × Int := (0, 0)
  max : Int × Int := (0, 0)
  deriving DecidableEq, Repr

/-- Input focus on a surface the bridge does not know: the events that follow are not
the bridge's. -/
structure Focus where
  hidden : Bool := false
  /-- Something was forwarded since the last `frame` event. -/
  pending : Bool := false
  /-- Touch points that went down on a hidden surface. -/
  touches : List Int := []
  deriving DecidableEq, Repr

/-- What the proxy tracks about an object. -/
inductive Role where
  | none
  | surface (s : Surface)
  | buffer (width height : Int)
  | bufferParams (size : Option (Int × Int))
  | viewport (surface : Ref)
  | output (o : Output)
  | xdgOutput (output : Ref)
  | xdgSurface (surface : Ref) (toplevel : Option Ref)
  | toplevel (t : Toplevel)
  | popup (parent : Ref)
  | positioner (anchor : Option (Int × Int × Int × Int)) (parentSize : Option (Int × Int))
  | focus (f : Focus)
  | registry (globals : Table (Interface × Nat))

/-- The interfaces whose events follow an input focus. -/
def focusInterfaces : List String :=
  ["wl_pointer", "wl_touch", "wl_data_device", "zwp_tablet_tool_v2"]

/-- The source's `Role::for_interface`. -/
def Role.forInterface (name : String) : Role :=
  if name = "wl_surface" then .surface {}
  else if name = "wl_output" then .output {}
  else if name = "zwp_linux_buffer_params_v1" then .bufferParams .none
  else if name = "xdg_positioner" then .positioner .none .none
  else if name ∈ focusInterfaces then .focus {}
  else if name = "wl_registry" then .registry ∅
  else .none

def Role.isFocus : Role → Bool
  | .focus _ => true
  | _ => false

/-- Only what input goes to has a focus. -/
def Role.Fits (role : Role) (iface : String) : Prop :=
  role.isFocus → iface ∈ focusInterfaces

theorem Role.fits_forInterface (name : String) : (Role.forInterface name).Fits name := by
  unfold Role.forInterface
  intro hfocus
  split at hfocus
  · cases hfocus
  split at hfocus
  · cases hfocus
  split at hfocus
  · cases hfocus
  split at hfocus
  · cases hfocus
  split at hfocus
  · assumption
  split at hfocus <;> cases hfocus

/-! ## Section 3: Objects -/

inductive Kind where
  | display
  /-- Forwarded to this object on the compositor's connection; `none` when that has
  died. -/
  | upstream (up : Option ObjectId)
  /-- The proxy's decoration manager, and its per-toplevel objects. -/
  | decorationManager
  | decoration (toplevel : Ref)
  deriving DecidableEq, Repr

/-- An object of the bridge's. `born` is its serial number (proof-only). -/
structure Obj where
  iface : Interface
  version : Nat
  kind : Kind
  role : Role
  born : Nat

/-- A title bar, drawn as `F`. -/
structure Frame (F : Type) where
  /-- The toplevel it is of, and the window's surface. -/
  toplevel : Ref
  surface : Ref
  /-- The window geometry the bridge asked for, within its surface. -/
  bridgeGeometry : Option (Int × Int × Int × Int) := none
  drawn : F

/-- What the display is scaled by for the bridge. -/
inductive XwaylandScale where
  | native
  | roundUp
  | compositor
  deriving DecidableEq, Repr

/-- An output's logical size, as the proxy's own connection sees it. -/
structure OutputGeometry where
  logical : Int × Int
  rotated : Bool
  deriving DecidableEq, Repr

/-! ## Section 4: The Log -/

/-- Who created an object of the bridge's. -/
inductive Origin where
  | bridge
  | compositor
  deriving DecidableEq, Repr

/-- What happens to the bridge's objects and is written to the bridge, and what is asked
of the compositor. -/
inductive Entry where
  | created (origin : Origin) (id : Id) (kind : Kind)
  | destroyed (id : Id)
  /-- `wl_display.delete_id`, written to the bridge. -/
  | deleteId (id : Id)
  /-- An event of `up`, written to the bridge as one of `id`. -/
  | event (id : Id) (up : ObjectId) (name : String) (sent : List UpstreamArg)
      (written : List BridgeArg)
  /-- An event of the proxy's own, written to the bridge. -/
  | own (id : Id) (name : String) (args : List BridgeArg)
  /-- A request passed on to the compositor, or one of the proxy's own. -/
  | passed (up : ObjectId) (name : String) (args : List UpstreamArg)
  deriving DecidableEq, Repr

/-- What the drawing of title bars does, which is up to a library. -/
structure Drawing (F : Type) where
  fresh : F
  /-- The height of the title bar. -/
  offset : F → Int
  setTitle : String → F → F
  setScale : Int → F → F
  /-- Takes the toplevel's new states and size; the size without the title bar. -/
  configure : List UInt8 → Int → Int → F → F × Int × Int
  setCapabilities : List UInt8 → F → F
  /-- Follows the size of the window, within the geometry the bridge asked for. -/
  commit : Option (Int × Int) → Option (Int × Int × Int × Int) → F → F
  redraw : F → F

/-- What the proxy is given by its surroundings. -/
structure Setting (F : Type) where
  /-- The message tables of the interfaces. -/
  table : String → Interface
  drawing : Drawing F
  /-- The compositor draws no title bars, so the proxy offers to. -/
  decorate : Bool
  scale : XwaylandScale
  /-- A mode's width over the logical one, in 120ths, rounded up: a quotient of
  floating point numbers. -/
  wholeRatio : Int → Int → Int

/-- Surroundings with these tables, and title bars of nothing. -/
def Setting.bare (table : String → Interface) : Setting Unit where
  table := table
  drawing :=
    { fresh := ()
      offset := fun _ => 0
      setTitle := fun _ f => f
      setScale := fun _ f => f
      configure := fun _ w h f => (f, w, h)
      setCapabilities := fun _ f => f
      commit := fun _ _ f => f
      redraw := fun f => f }
  decorate := true
  scale := .native
  wholeRatio := fun _ _ => 1

structure State (F : Type) where
  objects : Table Obj
  nextServerId : Id
  /-- Frames by the bridge's toplevel id. -/
  frames : Table (Frame F)
  /-- The outputs the scale is worked out from, by global name. -/
  outputs : Table OutputGeometry
  /-- An error from forwarding an event, which ends the proxy. -/
  failed : Bool
  /-- The bridge's object that the events of an object of the compositor's go to: the
  `Forward` data of the connection. -/
  data : Table Id
  /-- How many objects there were (proof-only). -/
  births : Nat
  /-- What happened so far (proof-only). -/
  log : List Entry

namespace State

variable {F : Type}

/-! ## Section 5: Operations -/

def obj (s : State F) (id : Id) : Option Obj :=
  s.objects.lookup id

def role (s : State F) (id : Id) : Option Role :=
  (s.obj id).map Obj.role

def note (s : State F) (e : Entry) : State F :=
  { s with log := s.log ++ [e] }

/-- `objects.insert`, of a new object. -/
def create (s : State F) (origin : Origin) (id : Id) (iface : Interface) (version : Nat) (kind : Kind)
    (role : Role) : State F :=
  { s with
    objects := s.objects.insert id
      { iface := iface, version := version, kind := kind, role := role, born := s.births }
    births := s.births + 1
    log := s.log ++ [.created origin id kind] }

/-- `objects.remove`. -/
def destroy (s : State F) (id : Id) : State F :=
  { s with objects := s.objects.erase id, log := s.log ++ [.destroyed id] }

theorem obj_create (s : State F) (origin : Origin) (id j : Id) (iface : Interface) (version : Nat)
    (kind : Kind) (role : Role) :
    (s.create origin id iface version kind role).obj j =
      if j = id then
        some { iface := iface, version := version, kind := kind, role := role, born := s.births }
      else s.obj j := by
  by_cases hj : j = id
  · rw [if_pos hj, hj]
    exact AList.lookup_insert s.objects
  · rw [if_neg hj]
    exact AList.lookup_insert_ne hj

theorem obj_destroy (s : State F) (id j : Id) :
    (s.destroy id).obj j = if j = id then none else s.obj j := by
  by_cases hj : j = id
  · rw [if_pos hj, hj]
    exact AList.lookup_erase id s.objects
  · rw [if_neg hj]
    exact AList.lookup_erase_ne hj

/-- Tells the bridge an id it created is free again. -/
def deleteId (s : State F) (id : Id) : State F :=
  if id < serverIdStart then s.note (.deleteId id) else s

theorem obj_deleteId (s : State F) (id j : Id) : (s.deleteId id).obj j = s.obj j := by
  unfold deleteId
  split <;> rfl

/-- Changes the role of an object, through `role_mut`. -/
def adjustRole (s : State F) (id : Id) (f : Role → Role) : State F :=
  { s with objects := s.objects.adjust id fun o => { o with role := f o.role } }

/-- Changes the frame of a toplevel. -/
def adjustFrame (s : State F) (toplevel : Id) (f : Frame F → Frame F) : State F :=
  { s with frames := s.frames.adjust toplevel f }

/-- An id to record, with the object it denotes now. -/
def ref (s : State F) (id : Id) : Ref :=
  { id := id, born := (s.obj id).map Obj.born }

/-- The object on the compositor's connection that an object is forwarded to. -/
def upstream (s : State F) (id : Id) : Option (Option ObjectId) :=
  match (s.obj id).map Obj.kind with
  | some (.upstream up) => some up
  | _ => none

/-- Sends a request of the proxy's own on a forwarded object. -/
def requestUpstream (s : State F) (up : Option ObjectId) (name : String) (args : List Int) : State F :=
  match up with
  | some up => s.note (.passed up name (args.map .int))
  | none => s

end State

end Psbox.Decorations
