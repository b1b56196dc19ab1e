import Psbox.Decorations.Requests

/-!
# Events of the Compositor

`Proxy::event` and what it calls (`decorations/proxy.rs`): events are recorded and
passed to the bridge's object they are for, with the bridge's objects in place of the
compositor's. Input on surfaces the bridge does not know is kept from it.
-/

namespace Psbox.Decorations

/-! ## Section 1: Focus -/

/-- The events of a tablet tool that follow its focus. -/
def toolEvents : List String :=
  ["motion", "pressure", "distance", "tilt", "rotation", "slider", "wheel", "button", "down", "up"]

/-- Whether an event for an object with this focus goes to the bridge, before what is
pending is noted. `hidden` is set when the event names an object the bridge does not
know. -/
def Focus.passes (f : Focus) (iface event : String) (hidden : Bool) (args : List BridgeArg) :
    Focus × Bool :=
  if event = "enter" ∨ event = "proximity_in" then ({ f with hidden := hidden }, !hidden)
  else if event = "leave" ∨ event = "proximity_out" then ({ f with hidden := false }, !f.hidden)
  else if event = "frame" then ({ f with pending := false }, f.pending)
  else if iface = "wl_touch" ∧ event = "down" then
    (if hidden then { f with touches := f.touches ++ [int args 3] } else f, !hidden)
  else if iface = "wl_touch" ∧ event = "up" then
    let id := int args 2
    ({ f with touches := f.touches.filter (· ≠ id) }, !f.touches.contains id)
  else if iface = "wl_touch" ∧ event = "motion" then (f, !f.touches.contains (int args 1))
  else if iface = "wl_touch" ∧ (event = "shape" ∨ event = "orientation") then
    (f, !f.touches.contains (int args 0))
  else if iface = "wl_touch" ∧ event = "cancel" then ({ f with touches := [] }, true)
  else if iface = "wl_pointer" then (f, !f.hidden)
  else if iface = "wl_data_device" ∧ (event = "motion" ∨ event = "drop") then (f, !f.hidden)
  else if iface = "zwp_tablet_tool_v2" ∧ event ∈ toolEvents then (f, !f.hidden)
  else (f, !hidden)

/-- The source's `Focus::pass`. -/
def Focus.pass (f : Focus) (iface event : String) (hidden : Bool) (args : List BridgeArg) :
    Focus × Bool :=
  let out := f.passes iface event hidden args
  -- Only what goes on to the bridge makes a `frame` due.
  (if out.2 ∧ event ≠ "frame" then { out.1 with pending := true } else out.1, out.2)

/-- The interfaces of the globals the bridge may bind. -/
def globalNames : List String :=
  ["wl_compositor", "wl_subcompositor", "wl_shm", "wl_seat", "wl_output", "wl_data_device_manager",
    "xdg_wm_base", "zxdg_output_manager_v1", "zxdg_decoration_manager_v1", "xdg_activation_v1",
    "wp_viewporter", "wp_fractional_scale_manager_v1", "zwp_linux_dmabuf_v1",
    "wp_linux_drm_syncobj_manager_v1", "zwp_relative_pointer_manager_v1",
    "zwp_pointer_constraints_v1", "zwp_primary_selection_device_manager_v1", "zwp_tablet_manager_v2"]

/-- An event of the compositor, with the objects the connection still has the data
of. -/
structure Event where
  sender : ObjectId
  opcode : Nat
  args : List UpstreamArg
  alive : ObjectId → Bool := fun _ => true

/-- The arguments of an event for the bridge. -/
structure Incoming where
  args : List BridgeArg := []
  /-- It names an object the bridge does not know. -/
  hidden : Bool := false
  /-- The object it creates, on both connections. -/
  child : Option (Id × ObjectId) := none

namespace State

variable {F : Type} (E : Setting F)

/-! ## Section 2: Translation -/

/-- The bridge's id for a forwarded object; `none` for the proxy's own. -/
def bridgeId (s : State F) (alive : ObjectId → Bool) (up : ObjectId) : Option Id :=
  if alive up then
    (s.data.lookup up).filter fun id => s.upstream id = some (some up)
  else none

/-- One argument before the others. -/
def received (a : BridgeArg) (r : State F × Option Incoming) : State F × Option Incoming :=
  (r.1, r.2.map fun out => { out with args := a :: out.args })

/-- Translates the arguments of an event, creating the objects it creates. There is no
result when the event is dropped at once. -/
def receive (desc : MessageDesc) (version : Nat) (alive : ObjectId → Bool) :
    List UpstreamArg → State F → State F × Option Incoming
  | [], s => (s, some {})
  | .object none :: args, s => received (.object 0) (receive desc version alive args s)
  | .object (some up) :: args, s =>
      match s.bridgeId alive up with
      | some id => received (.object id) (receive desc version alive args s)
      | none =>
          let r := received (.object 0) (receive desc version alive args s)
          (r.1, r.2.map fun out => { out with hidden := true })
  -- Events create objects of a fixed interface only.
  | .newId up :: args, s =>
      match desc.childInterface with
      | none => (s, none)
      | some name =>
          let id := s.nextServerId
          if id + 1 < 2 ^ 32 then
            let iface := E.table name
            let s := { s with nextServerId := id + 1 }.create .compositor id iface version (.upstream up)
              (Role.forInterface iface.name)
            let r := received (.newId id) (receive desc version alive args s)
            (r.1, r.2.map fun out => { out with child := out.child.or (up.map fun up => (id, up)) })
          -- Ids of the compositor's range are used up once: the proxy gives up at their end.
          else ({ s with failed := true }, none)
  | .int v :: args, s => received (.int v) (receive desc version alive args s)
  | .uint v :: args, s => received (.uint v) (receive desc version alive args s)
  | .fixed v :: args, s => received (.fixed v) (receive desc version alive args s)
  | .str v :: args, s => received (.str v) (receive desc version alive args s)
  | .array v :: args, s => received (.array v) (receive desc version alive args s)
  | .fd n :: args, s => received (.fd n) (receive desc version alive args s)

/-! ## Section 3: Bookkeeping Before an Event -/

/-- Keeps input on title bars from the bridge: events on a surface it does not know are
dropped, along with the ones that follow until the focus leaves it. -/
def focus (s : State F) (bridge : Id) (iface event : String) (hidden : Bool) (args : List BridgeArg) :
    State F × Bool :=
  match s.role bridge with
  | some (.focus f) =>
      let out := f.pass iface event hidden args
      (s.adjustRole bridge fun _ => .focus out.1, out.2)
  | _ => (s, !hidden)

def adjustOutput (s : State F) (id : Id) (f : Output → Output) : State F :=
  s.adjustRole id fun
    | .output o => .output (f o)
    | r => r

/-- The `wl_output` a `zxdg_output_v1` is for. -/
def outputOf (s : State F) (xdgOutput : Id) : Option Id :=
  match s.role xdgOutput with
  | some (.xdgOutput output) => some output.id
  | _ => none

/-- Advertises a global to the bridge, if it may bind it. -/
def advertise (s : State F) (bridge : Id) (args : List BridgeArg) : State F × List BridgeArg × Bool :=
  let offered := match args[1]? with
    | some (.str (some name)) =>
        if globalNames.contains name ∧ ¬(E.decorate ∧ name = decorationManagerName) then
          some (E.table name)
        else none
    | _ => none
  match offered with
  | none => (s, args, false)
  | some global =>
      let version := min (uint args 2) global.version
      (s.adjustRole bridge fun
        | .registry globals => .registry (globals.insert (uint args 0) (global, version))
        | r => r, args.set 2 (.uint version), true)

/-- Withdraws a global from the bridge, if it was advertised. -/
def withdraw (s : State F) (bridge : Id) (name : Nat) : State F × Bool :=
  match s.role bridge with
  | some (.registry globals) =>
      (s.adjustRole bridge fun _ => .registry (globals.erase name), (globals.lookup name).isSome)
  | _ => (s, false)

/-- The bookkeeping of an event that `focus` decides on, and the arguments it then
has. -/
def adjustEvent (s : State F) (bridge : Id) (iface event : String) (args : List BridgeArg) :
    State F × List BridgeArg :=
  match iface, event with
  | "xdg_toplevel", "configure" =>
      match s.frames.lookup bridge with
      | some f =>
          let states : List UInt8 := match args[2]? with
            | some (Arg.array bytes) => bytes
            | _ => []
          let out := E.drawing.configure states (int args 0) (int args 1) f.drawn
          (s.adjustFrame bridge fun f => { f with drawn := out.1 },
            (args.set 0 (.int out.2.1)).set 1 (.int out.2.2))
      | none => (s, args)
  | "xdg_toplevel", "configure_bounds" =>
      let offset := s.frameOffset E bridge
      let h := int args 1
      (s, if offset > 0 ∧ h > 0 then args.set 1 (.int (max (h - offset) 1)) else args)
  | "xdg_toplevel", "wm_capabilities" =>
      match args.head? with
      | some (.array caps) =>
          (s.adjustFrame bridge fun f => { f with drawn := E.drawing.setCapabilities caps f.drawn }, args)
      | _ => (s, args)
  | "xdg_popup", "configure" =>
      (s, args.set 1 (.int (saturate (int args 1 - s.header E (s.popupParent bridge)))))
  | "wl_surface", "enter" =>
      let s := s.adjustSurface bridge fun x => { x with outputs := x.outputs ++ [s.ref (uint args 0)] }
      (s.rescale E fun surface => surface = bridge, args)
  | "wl_surface", "leave" =>
      let s := s.adjustSurface bridge fun x =>
        { x with outputs := x.outputs.filter fun o => o.id ≠ uint args 0 }
      (s.rescale E fun surface => surface = bridge, args)
  | "wl_surface", "preferred_buffer_scale" =>
      let s := s.adjustSurface bridge fun x => { x with preferredScale := some (max (int args 0) 1) }
      (s.rescale E fun surface => surface = bridge, args.set 0 (.int (wholeScale E.scale (int args 0))))
  | "wp_fractional_scale_v1", "preferred_scale" =>
      (s, args.set 0 (.uint (preferredScale E.scale (uint args 0))))
  -- 90 and 270 degrees, flipped or not.
  | "wl_output", "geometry" =>
      (s.adjustOutput bridge fun o => { o with rotated := [1, 3, 5, 7].contains (int args 7) }, args)
  | "wl_output", "done" => (if E.scale ≠ .native then s.tellMode E bridge false else s, args)
  -- Below version 3, a logical size change ends with the xdg-output's own `done`.
  | "zxdg_output_v1", "done" =>
      match s.outputOf bridge with
      | some output => (if E.scale ≠ .native then s.tellMode E output true else s, args)
      | none => (s, args)
  | "zxdg_output_v1", "logical_size" =>
      match s.outputOf bridge with
      | some output =>
          (s.adjustOutput output fun o => { o with logical := some (int args 0, int args 1) }, args)
      | none => (s, args)
  | "wl_output", "scale" =>
      let scale := int args 0
      let s := s.adjustOutput bridge fun o => { o with scale := some (max scale 1) }
      let affected := s.objects.entries.filterMap fun e =>
        match e.2.role with
        | .surface x => if x.outputs.any fun o => o.id = bridge then some e.1 else none
        | _ => none
      (s.rescale E affected.contains, args.set 0 (.int (wholeScale E.scale scale)))
  | _, _ => (s, args)

/-- Bookkeeping and adjustments before an event goes to the bridge: the arguments it
goes with, and whether it does. -/
def beforeEvent (s : State F) (bridge : Id) (iface event : String) (hidden : Bool)
    (args : List BridgeArg) : State F × List BridgeArg × Bool :=
  if iface = "wl_registry" ∧ event = "global" then s.advertise E bridge args
  else if iface = "wl_registry" ∧ event = "global_remove" then
    let out := s.withdraw bridge (uint args 0)
    (out.1, args, out.2)
  -- Only the current mode sizes the X screen. It is told at `done`.
  else if iface = "wl_output" ∧ event = "mode" ∧ E.scale ≠ .native ∧ uint args 0 % 2 = 1 then
    let size := (int args 1, int args 2)
    let version := ((s.obj bridge).map Obj.version).getD 1
    let s := s.adjustOutput bridge fun o => { o with mode := some (uint args 0, size, int args 3) }
    if version ≥ 2 then (s, args, false)
    else
      let told := (s.toldMode E bridge).getD size
      let args := (args.set 1 (.int told.1)).set 2 (.int told.2)
      let out := s.focus bridge iface event hidden args
      (out.1, args, out.2)
  else if iface = "zwp_linux_buffer_params_v1" ∧ event = "created" then
    match s.role bridge with
    | some (.bufferParams (some size)) =>
        -- The size is known from the request, the buffer only now.
        let s := s.adjustRole (uint args 0) fun _ => .buffer size.1 size.2
        let out := s.focus bridge iface event hidden args
        (out.1, args, out.2)
    | _ => (s, args, !hidden)
  else
    let adjusted := s.adjustEvent E bridge iface event args
    let out := adjusted.1.focus bridge iface event hidden adjusted.2
    (out.1, adjusted.2, out.2)

/-! ## Section 4: Events -/

/-- Writes an event to the bridge, and takes away an object that the event destroys. -/
def deliver (s : State F) (bridge : Id) (iface : Interface) (desc : MessageDesc) (e : Event)
    (input : Incoming) : State F :=
  let out := s.beforeEvent E bridge iface.name desc.name input.hidden input.args
  let s := if out.2.2 then out.1.note (.event bridge e.sender desc.name e.args out.2.1) else out.1
  let s := if desc.isDestructor then (s.destroy bridge).deleteId bridge else s
  match input.child with
  | some (id, up) => { s with data := s.data.insert up id }
  | none => s

/-- Takes one event of the compositor. -/
def event (s : State F) (e : Event) : State F :=
  match s.data.lookup e.sender with
  | none => s
  | some bridge =>
      match s.obj bridge with
      | none => s
      | some obj =>
          if obj.kind ≠ .upstream (some e.sender) then s
          else
            match obj.iface.events[e.opcode]? with
            | none => s
            | some desc =>
                let r := s.receive E desc obj.version e.alive e.args
                match r.2 with
                | none => r.1
                | some input => r.1.deliver E bridge obj.iface desc e input

/-- Takes what the proxy's own connection knows about an output. -/
def setOutput (s : State F) (global : Nat) (geometry : Option OutputGeometry) : State F :=
  match geometry with
  | some g => { s with outputs := s.outputs.insert global g }
  | none => { s with outputs := s.outputs.erase global }

/-- The title bar's close button: `frame_action` of `FrameAction::Close`. -/
def close (s : State F) (toplevel : Id) : State F :=
  if (s.obj toplevel).isSome then s.note (.own toplevel "close" []) else s

/-! ## Section 5: Steps -/

end State

/-- One thing that happens to the proxy. -/
inductive Action where
  | request (m : Request) (answer : Answer)
  | event (e : Event)
  | setOutput (global : Nat) (geometry : Option OutputGeometry)
  | close (toplevel : Id)

/-- The proxy before its first message: only the display. -/
def State.initial (F : Type) (E : Setting F) : State F where
  objects := (∅ : Table Obj).insert displayId
    { iface := E.table "wl_display", version := 1, kind := .display, role := .none, born := 0 }
  nextServerId := serverIdStart
  frames := ∅
  outputs := ∅
  failed := false
  data := ∅
  births := 1
  log := [.created .bridge displayId .display]

/-- There is no next state when a request ends the proxy. -/
def step {F : Type} (E : Setting F) (s : State F) : Action → Option (State F)
  | .request m answer => (s.request E m answer).toOption
  | .event e => some (s.event E e)
  | .setOutput global geometry => some (s.setOutput global geometry)
  | .close toplevel => some (s.close toplevel)

end Psbox.Decorations
