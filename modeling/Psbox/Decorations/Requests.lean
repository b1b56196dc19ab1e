import Psbox.Decorations.Scale
import Psbox.Foundations.Fallible

/-!
# Requests of the Bridge

`Proxy::request` and what it calls (`decorations/proxy.rs`): requests are checked,
recorded, and passed on with the compositor's objects in place of the bridge's.

What the compositor's connection answers is given with each request. A fault ends the
proxy.
-/

namespace Psbox.Decorations

open Psbox.Foundations (bind_eq_ok)

/-! ## Section 1: Faults -/

/-- Why a request ends the proxy, one constructor for each text of the source. -/
inductive Fault where
  | unknownRequest (sender : Id) (opcode : Nat)
  | malformedRequest (sender : Id) (opcode : Nat)
  | newerRequest (iface request : String) (version : Nat)
  | invalidNewId (id : Id)
  | malformedDisplayRequest
  | connectionGone
  | malformedBind
  | boundAs (name : Nat) (iface : String) (version : Nat)
  | notOffered (name : Nat)
  | nullObject (iface request : String)
  | unknownObject (iface request : String) (id : Id)
  | proxyObject (iface request : String)
  | wrongInterface (iface request passed expected : String)
  | noFixedInterface (iface request : String)
  | notAToplevel (id : Id)
  | malformedManagerRequest
  | malformedDecorationRequest
  /-- An `expect` of the source. -/
  | panicked
  deriving DecidableEq, Repr

/-- What the compositor's side answers to a request: the new object, when the request
could be sent, and whether a title bar could be made. -/
structure Answer where
  sent : Option ObjectId
  framed : Bool := true
  deriving DecidableEq, Repr

def displayId : Id := 1

/-- The global name of the decoration manager the proxy offers. -/
def decorationGlobal : Nat := 4294967295

/-- `zxdg_toplevel_decoration_v1` modes. -/
def clientSide : Nat := 1
def serverSide : Nat := 2

def decorationManagerName : String := "zxdg_decoration_manager_v1"
def toplevelDecorationName : String := "zxdg_toplevel_decoration_v1"

namespace State

variable {F : Type} (E : Setting F)

def checkNewId (s : State F) (id : Id) : Except Fault Unit :=
  -- Ids of the compositor's range, and ids in use, are not the bridge's to take.
  if id = 0 ∨ id ≥ serverIdStart ∨ (s.obj id).isSome then .error (.invalidNewId id) else .ok ()

/-! ## Section 2: The Display and the Registry -/

/-- Records an object the compositor created for the bridge, and where its events go. -/
def createForwarded (s : State F) (id : Id) (iface : Interface) (version : Nat) (up : ObjectId)
    (role : Role) : State F :=
  let s := s.create .bridge id iface version (.upstream (some up)) role
  { s with data := s.data.insert up id }

/-- `wl_display.sync` and `wl_display.get_registry`. -/
def displayRequest (s : State F) (desc : MessageDesc) (m : Request) (answer : Answer) :
    Except Fault (State F) :=
  match m.args with
  | [.newId child] => do
      s.checkNewId child
      match desc.childInterface with
      -- Both requests of the display have an interface for what they make.
      | none => .error .panicked
      | some name =>
          match answer.sent with
          | none => .error .connectionGone
          | some up =>
              let iface := E.table name
              let s := s.createForwarded child iface 1 up (Role.forInterface iface.name)
              -- The manager is offered first, under a name that the compositor does not use.
              if iface.name = "wl_registry" ∧ E.decorate then
                .ok (s.note (.own child "global"
                  [.uint decorationGlobal, .str (some (E.table decorationManagerName).name), .uint 1]))
              else .ok s
  | _ => .error .malformedDisplayRequest

/-- The role of a global's object, with the global's name when it is an output. -/
def boundRole (iface : String) (name : Nat) : Role :=
  match Role.forInterface iface with
  | .output o => .output { o with global := name }
  | role => role

theorem fits_boundRole (iface : String) (name : Nat) : (boundRole iface name).Fits iface := by
  unfold boundRole
  split
  · intro hfocus
    cases hfocus
  · exact Role.fits_forInterface iface

/-- `wl_registry.bind`, for a global the bridge was told about. -/
def bind (s : State F) (m : Request) (registry : Option ObjectId) (answer : Answer) :
    Except Fault (State F) :=
  match m.args with
  | [.uint name, .str (some ifaceName), .uint version, .newId child] => do
      s.checkNewId child
      -- The manager's global is the proxy's own: nothing of it goes upstream.
      if E.decorate ∧ name = decorationGlobal then
        let manager := E.table decorationManagerName
        if ifaceName ≠ manager.name ∨ version ≠ 1 then .error (.boundAs name ifaceName version)
        else .ok (s.create .bridge child manager version .decorationManager .none)
      else
        -- The bridge can bind only what it was told of, up to the version it was told.
        let advertised := match s.role m.sender with
          | some (.registry globals) => globals.lookup name
          | _ => none
        match advertised with
        | none => .error (.notOffered name)
        | some (global, most) =>
            if ifaceName ≠ global.name ∨ version = 0 ∨ version > most then
              .error (.boundAs name ifaceName version)
            else
              match registry, answer.sent with
              | some _, some up =>
                  .ok (s.createForwarded child global version up (boundRole global.name name))
              | _, _ => .error .connectionGone
  | _ => .error .malformedBind

/-! ## Section 3: Bookkeeping Before a Request -/

/-- Changes the size state of a surface. -/
def adjustSurface (s : State F) (id : Id) (f : Surface → Surface) : State F :=
  s.adjustRole id fun
    | .surface x => .surface (f x)
    | r => r

def setDestination (s : State F) (viewport : Id) (destination : Option (Int × Int)) : State F :=
  match s.role viewport with
  | some (.viewport surface) =>
      s.adjustSurface surface.id fun x => { x with pendingDestination := some destination }
  | _ => s

end State

/-- A surface's state after a commit. -/
def Surface.commit (x : Surface) : Surface :=
  { x with
    attached := x.pendingAttach.getD x.attached
    pendingAttach := none
    scale := x.pendingScale.getD x.scale
    pendingScale := none
    destination := x.pendingDestination.getD x.destination
    pendingDestination := none }

namespace State

variable {F : Type} (E : Setting F)

/-- The size of a surface's content, from what it has committed. -/
def surfaceSize (s : State F) (x : Surface) : Option (Int × Int) :=
  match x.destination with
  -- A destination on a viewport overrides the buffer's size.
  | some d => some d
  | none =>
      match x.attached with
      | none => none
      | some buffer =>
          -- The id may be another buffer's by now, or nothing's: this is the source's own lookup.
          match s.role buffer.id with
          | some (.buffer width height) => some (width.tdiv x.scale, height.tdiv x.scale)
          | _ => none

/-- Applies a surface's pending state and returns its size in surface coordinates, when
it has content. -/
def commitSurface (s : State F) (surface : Id) : State F × Option (Int × Int) :=
  match s.role surface with
  | some (.surface x) =>
      (s.adjustSurface surface Surface.commit, s.surfaceSize x.commit)
  | _ => (s, none)

/-- The toplevel whose frame is around a surface, one of them if several are. -/
def framedBy (s : State F) (surface : Id) : Option Id :=
  (s.frames.entries.find? fun e => e.2.surface.id = surface).map Sigma.fst

/-- Bookkeeping and adjustments before a request goes out: the arguments it goes out
with, and whether it does. -/
def beforeRequest (s : State F) (sender : Id) (iface request : String) (args : List BridgeArg) :
    State F × List BridgeArg × Bool :=
  match iface, request with
  | "wl_surface", "attach" =>
      let buffer := uint args 0
      let attach := if buffer ≠ 0 then some (s.ref buffer) else none
      (s.adjustSurface sender fun x => { x with pendingAttach := some attach }, args, true)
  | "wl_surface", "set_buffer_scale" =>
      (s.adjustSurface sender fun x => { x with pendingScale := some (max (int args 0) 1) }, args, true)
  | "wl_surface", "commit" =>
      let out := s.commitSurface sender
      match out.1.framedBy sender with
      | some t =>
          -- The frame follows the content before the commit itself goes out.
          (out.1.adjustFrame t fun f =>
            { f with drawn := E.drawing.commit out.2 f.bridgeGeometry f.drawn }, args, true)
      | none => (out.1, args, true)
  | "wp_viewport", "set_destination" =>
      let size := (int args 0, int args 1)
      -- An unset destination is `-1 -1`.
      (s.setDestination sender (if size.1 > 0 ∧ size.2 > 0 then some size else none), args, true)
  | "wp_viewport", "destroy" => (s.setDestination sender none, args, true)
  | "zwp_linux_buffer_params_v1", "create" =>
      let size := (int args 0, int args 1)
      (s.adjustRole sender fun
        | .bufferParams _ => .bufferParams (some size)
        | r => r, args, true)
  | "xdg_surface", "set_window_geometry" =>
      let geometry := (int args 0, int args 1, int args 2, int args 3)
      match s.framedToplevel sender with
      -- A framed window's geometry is the frame's to send: the request stays here.
      | some t => (s.adjustFrame t fun f => { f with bridgeGeometry := some geometry }, args, false)
      | none => (s, args, true)
  | "xdg_surface", "get_popup" =>
      -- The positioner is moved for this one request, and back in `apply`.
      (s.offsetPositioner (uint args 2) (s.header E (uint args 1)), args, true)
  | "xdg_popup", "reposition" =>
      (s.offsetPositioner (uint args 0) (s.header E (s.popupParent sender)), args, true)
  | "xdg_positioner", "set_anchor_rect" =>
      let rect := (int args 0, int args 1, int args 2, int args 3)
      (s.adjustRole sender fun
        | .positioner _ size => .positioner (some rect) size
        | r => r, args, true)
  | "xdg_positioner", "set_parent_size" =>
      let size := (int args 0, int args 1)
      (s.adjustRole sender fun
        | .positioner anchor _ => .positioner anchor (some size)
        | r => r, args, true)
  | "xdg_toplevel", "set_title" =>
      let title := match args.head? with
        | some (.str (some t)) => t
        | _ => ""
      let s := s.adjustFrame sender fun f =>
        { f with drawn := E.drawing.redraw (E.drawing.setTitle title f.drawn) }
      (s.adjustRole sender fun
        | .toplevel t => .toplevel { t with title := some title }
        | r => r, args, true)
  | "xdg_toplevel", "set_min_size" =>
      let size := (int args 0, int args 1)
      let s := s.adjustRole sender fun
        | .toplevel t => .toplevel { t with min := size }
        | r => r
      (s, limitArgs s sender size args, true)
  | "xdg_toplevel", "set_max_size" =>
      let size := (int args 0, int args 1)
      let s := s.adjustRole sender fun
        | .toplevel t => .toplevel { t with max := size }
        | r => r
      (s, limitArgs s sender size args, true)
  -- The frame's subsurfaces go with it; the window geometry goes with the toplevel.
  | "xdg_toplevel", "destroy" => ({ s with frames := s.frames.erase sender }, args, true)
  | _, _ => (s, args, true)
where
  /-- A size limit that takes in the title bar. -/
  limitArgs (s : State F) (toplevel : Id) (size : Int × Int) (args : List BridgeArg) :
      List BridgeArg :=
    let offset := s.frameOffset E toplevel
    -- A limit of zero is none, and stays so.
    if offset > 0 ∧ size.2 > 0 then args.set 1 (.int (saturate (size.2 + offset))) else args

/-! ## Section 4: Bookkeeping After a Request -/

/-- What a request creates, to record once it has gone out. -/
inductive After where
  | nothing
  | buffer (width height : Int)
  | viewport (surface : Id)
  | xdgOutput (output : Id)
  | xdgSurface (surface : Id)
  | toplevel
  | popup (parent positioner : Id) (offset : Int)
  | reposition (positioner : Id) (offset : Int)
  deriving DecidableEq, Repr

/-- What to record about the objects a request creates, read from its arguments before
they go out. -/
def afterRequest (s : State F) (sender : Id) (iface request : String) (args : List BridgeArg) : After :=
  match iface, request with
  | "wl_shm_pool", "create_buffer" => .buffer (int args 2) (int args 3)
  | "zwp_linux_buffer_params_v1", "create_immed" => .buffer (int args 1) (int args 2)
  | "wp_viewporter", "get_viewport" => .viewport (uint args 1)
  | "xdg_wm_base", "get_xdg_surface" => .xdgSurface (uint args 1)
  | "zxdg_output_manager_v1", "get_xdg_output" => .xdgOutput (uint args 1)
  | "xdg_surface", "get_toplevel" => .toplevel
  | "xdg_surface", "get_popup" => .popup (uint args 1) (uint args 2) (s.header E (uint args 1))
  | "xdg_popup", "reposition" => .reposition (uint args 0) (s.header E (s.popupParent sender))
  | _, _ => .nothing

/-- The role of the child. -/
def setChildRole (s : State F) (child : Option Id) (role : Role) : State F :=
  match child with
  | some c => s.adjustRole c fun _ => role
  | none => s

def apply (s : State F) (sender : Id) (child : Option Id) (after : After) : State F :=
  match after with
  | .nothing => s
  -- The positioner is again what the bridge set it to.
  | .reposition positioner offset => s.restorePositioner positioner offset
  | .buffer width height => s.setChildRole child (.buffer width height)
  | .viewport surface => s.setChildRole child (.viewport (s.ref surface))
  | .xdgOutput output => s.setChildRole child (.xdgOutput (s.ref output))
  | .xdgSurface surface => s.setChildRole child (.xdgSurface (s.ref surface) none)
  | .toplevel =>
      -- The xdg surface learns of its toplevel, which title bars are looked up by.
      let s := match child with
        | some c => s.adjustRole sender fun
            | .xdgSurface surface _ => .xdgSurface surface (some (s.ref c))
            | r => r
        | none => s
      s.setChildRole child (.toplevel { xdgSurface := s.ref sender })
  | .popup parent positioner offset =>
      let s := s.restorePositioner positioner offset
      s.setChildRole child (.popup (s.ref parent))

/-! ## Section 5: Forwarding -/

/-- A request in the compositor's objects: its arguments, the object it creates and that
one's interface, and whether it names an object the compositor has destroyed. -/
structure Outgoing where
  args : List UpstreamArg := []
  child : Option (Id × String) := none
  dead : Bool := false

def Outgoing.push (a : UpstreamArg) (out : Outgoing) : Outgoing :=
  { out with args := a :: out.args }

/-- Translates the arguments of a request. -/
def translate (s : State F) (iface : String) (desc : MessageDesc) :
    List BridgeArg → List ArgType → List String → Except Fault Outgoing
  | .object id :: args, ty :: types, expected => do
      -- Zero stands for no object, which only some arguments may be.
      if id = 0 then
        if ty ≠ .object true then .error (.nullObject iface desc.name)
        else
          let out ← translate s iface desc args types expected.tail
          .ok (out.push (.object none))
      else
        match s.obj id with
        | none => .error (.unknownObject iface desc.name id)
        | some obj =>
            match obj.kind with
            | .upstream target =>
                let name := expected.headD ""
                -- An interface that the description leaves out is not checked.
                if name ≠ "" ∧ name ≠ "<anonymous>" ∧ name ≠ obj.iface.name then
                  .error (.wrongInterface iface desc.name obj.iface.name name)
                else
                  let out ← translate s iface desc args types expected.tail
                  -- What the compositor has destroyed makes the request a dead one.
                  .ok { out.push (.object target) with dead := target.isNone || out.dead }
            | _ => .error (.proxyObject iface desc.name)
  | .newId id :: args, _ :: types, expected => do
      s.checkNewId id
      match desc.childInterface with
      | none => .error (.noFixedInterface iface desc.name)
      | some child =>
          let out ← translate s iface desc args types expected
          .ok { out.push (.newId none) with child := out.child.or (some (id, child)) }
  -- The others are the same on both connections.
  | .int v :: args, _ :: types, expected =>
      (translate s iface desc args types expected).map (Outgoing.push (.int v))
  | .uint v :: args, _ :: types, expected =>
      (translate s iface desc args types expected).map (Outgoing.push (.uint v))
  | .fixed v :: args, _ :: types, expected =>
      (translate s iface desc args types expected).map (Outgoing.push (.fixed v))
  | .str v :: args, _ :: types, expected =>
      (translate s iface desc args types expected).map (Outgoing.push (.str v))
  | .array v :: args, _ :: types, expected =>
      (translate s iface desc args types expected).map (Outgoing.push (.array v))
  | .fd n :: args, _ :: types, expected =>
      (translate s iface desc args types expected).map (Outgoing.push (.fd n))
  | _, _, _ => .ok {}

/-- Notes a request that was sent. -/
def pass (s : State F) (up sent : Option ObjectId) (request : String) (args : List UpstreamArg) :
    State F :=
  match up, sent with
  | some up, some _ => s.note (.passed up request args)
  | _, _ => s

/-- Records the object a request creates: forwarded, or dead from the start when the
request could not be sent. -/
def createChild (s : State F) (child : Option (Id × String)) (version : Nat) (sent : Option ObjectId) :
    State F :=
  match child with
  | none => s
  | some (id, name) =>
      let iface := E.table name
      match sent with
      | some up => s.createForwarded id iface version up (Role.forInterface iface.name)
      | none => s.create .bridge id iface version (.upstream none) .none

/-- Sends a request whose arguments are translated, and records what it creates and
destroys. -/
def complete (s : State F) (obj : Obj) (desc : MessageDesc) (up : Option ObjectId) (sender : Id)
    (answer : Answer) (after : After) (out : Outgoing) : State F :=
  -- The request is on, or names, an object the compositor has destroyed: dropped.
  let sent := if out.dead then none else up.bind fun _ => answer.sent
  let s := (s.pass up sent desc.name out.args).createChild E out.child obj.version sent
  let s := s.apply sender (out.child.map Prod.fst) after
  if desc.isDestructor then (s.destroy sender).deleteId sender else s

/-- Forwards a request, translating object ids. -/
def forward (s : State F) (obj : Obj) (desc : MessageDesc) (up : Option ObjectId) (m : Request)
    (answer : Answer) : Except Fault (State F) :=
  let before := s.beforeRequest E m.sender obj.iface.name desc.name m.args
  let s := before.1
  let args := before.2.1
  -- A framed window's geometry: nothing goes out.
  if !before.2.2 then .ok s
  else do
    let after := s.afterRequest E m.sender obj.iface.name desc.name args
    let out ← s.translate obj.iface.name desc args desc.signature desc.argInterfaces
    .ok (s.complete E obj desc up m.sender answer after out)

/-! ## Section 6: The Decoration Manager -/

/-- A title bar for a toplevel, when one can be made. -/
def addFrame (s : State F) (toplevel : Id) (framed : Bool) : Option (State F) :=
  if (s.frames.lookup toplevel).isSome then some s
  else
    match s.role toplevel with
    | some (.toplevel t) =>
        match s.role t.xdgSurface.id with
        | some (.xdgSurface surface _) =>
            match s.upstream surface.id, s.upstream t.xdgSurface.id, s.upstream toplevel with
            | some _, some _, some up =>
                -- The frame library may fail to make a title bar.
                if framed then
                  let drawn := match t.title with
                    | some title => E.drawing.setTitle title E.drawing.fresh
                    | none => E.drawing.fresh
                  let drawn := E.drawing.setScale (s.surfaceScale surface.id) drawn
                  let frame : Frame F :=
                    { toplevel := s.ref toplevel, surface := s.ref surface.id, drawn := drawn }
                  let s := { s with frames := s.frames.insert toplevel frame }
                  -- The compositor has the limits without the title bar so far.
                  some (s.resendSizeLimits up t.min t.max (E.drawing.offset drawn))
                else none
            | _, _, _ => none
        | _ => none
    | _ => none

def removeFrame (s : State F) (toplevel : Id) : State F :=
  if (s.frames.lookup toplevel).isSome then
    let s := { s with frames := s.frames.erase toplevel }
    match s.role toplevel, s.upstream toplevel with
    | some (.toplevel t), some up => s.resendSizeLimits up t.min t.max 0
    | _, _ => s
  else s

def managerRequest (s : State F) (m : Request) : Except Fault (State F) :=
  match m.opcode, m.args with
  -- Destroying the manager leaves its decorations alone.
  | 0, [] => .ok ((s.destroy m.sender).deleteId m.sender)
  | 1, [.newId id, .object toplevel] => do
      s.checkNewId id
      match s.role toplevel with
      | some (.toplevel _) =>
          .ok (s.create .bridge id (E.table toplevelDecorationName) 1 (.decoration (s.ref toplevel)) .none)
      | _ => .error (.notAToplevel toplevel)
  | _, _ => .error .malformedManagerRequest

/-- Sets the mode of a decoration and tells the bridge. -/
def setMode (s : State F) (sender toplevel : Id) (mode : Nat) (framed : Bool) : State F :=
  if mode = serverSide then
    match s.addFrame E toplevel framed with
    -- The bridge is told what it got, which is not what it asked for where no frame could be made.
    | some s => s.note (.own sender "configure" [.uint serverSide])
    | none => s.note (.own sender "configure" [.uint clientSide])
  else (s.removeFrame toplevel).note (.own sender "configure" [.uint clientSide])

def decorationRequest (s : State F) (m : Request) (toplevel : Id) (answer : Answer) :
    Except Fault (State F) :=
  match m.opcode, m.args with
  | 0, [] => .ok (((s.removeFrame toplevel).destroy m.sender).deleteId m.sender)
  | 1, [.uint mode] =>
      if mode = clientSide ∨ mode = serverSide then .ok (s.setMode E m.sender toplevel mode answer.framed)
      else .error .malformedDecorationRequest
  -- Unsetting the mode leaves the choice to the proxy, which decorates.
  | 2, [] => .ok (s.setMode E m.sender toplevel serverSide answer.framed)
  | _, _ => .error .malformedDecorationRequest

/-! ## Section 7: Requests -/

/-- Takes one request of the bridge. -/
def request (s : State F) (m : Request) (answer : Answer) : Except Fault (State F) :=
  match s.obj m.sender with
  | none => .error (.unknownRequest m.sender m.opcode)
  | some obj =>
      match obj.iface.requests[m.opcode]? with
      | none => .error (.unknownRequest m.sender m.opcode)
      | some desc =>
          if !wellTyped m.args desc.signature then .error (.malformedRequest m.sender m.opcode)
          else if desc.since > obj.version then
            .error (.newerRequest obj.iface.name desc.name obj.version)
          else
            match obj.kind with
            | .display => s.displayRequest E desc m answer
            | .decorationManager => s.managerRequest E m
            | .decoration toplevel => s.decorationRequest E m toplevel.id answer
            | .upstream up =>
                if obj.iface.name = "wl_registry" then s.bind E m up answer
                else s.forward E obj desc up m answer

end State

end Psbox.Decorations
