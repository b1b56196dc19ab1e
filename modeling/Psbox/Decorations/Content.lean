import Mathlib.Logic.Function.Basic
import Psbox.Decorations.Parts
import Psbox.Foundations.Runs

/-!
# The Size of a Surface's Content

What Wayland has for the size of a surface: attached buffers, scales and destinations are
pending until a commit, and what is committed stays, also when the buffer object is
destroyed. `Contents` is that state, kept by the serial numbers of the objects, which are
never those of others. It is not translated from the source: it is what the proxy's own
tracking (`commit_surface`) is compared with.
-/

namespace Psbox.Decorations

open Psbox.Foundations

variable {F : Type} {E : Setting F}

/-! ## Section 1: Double-Buffered State -/

/-- The content of a surface, committed and pending: the size of its buffer, its scale,
and the destination of its viewport. -/
structure Content where
  buffer : Option (Int × Int) := none
  pendingBuffer : Option (Option (Int × Int)) := none
  scale : Int := 1
  pendingScale : Option Int := none
  destination : Option (Int × Int) := none
  pendingDestination : Option (Option (Int × Int)) := none
  deriving DecidableEq, Repr

def Content.commit (c : Content) : Content where
  buffer := c.pendingBuffer.getD c.buffer
  pendingBuffer := none
  scale := c.pendingScale.getD c.scale
  pendingScale := none
  destination := c.pendingDestination.getD c.destination
  pendingDestination := none

/-- The size in surface coordinates: none without a buffer. -/
def Content.size (c : Content) : Option (Int × Int) :=
  c.buffer.map fun b => c.destination.getD (b.1.tdiv c.scale, b.2.tdiv c.scale)

/-- The contents of surfaces, and what they are made of: the sizes of buffers and of the
buffers that are being made, and the surfaces that viewports are for. -/
structure Contents where
  surfaces : Nat → Content := fun _ => {}
  buffers : Nat → Option (Int × Int) := fun _ => none
  params : Nat → Option (Int × Int) := fun _ => none
  viewports : Nat → Option Nat := fun _ => none

/-- What changes contents. Objects are given by their serial numbers. -/
inductive SizeOp where
  | newBuffer (b : Nat) (size : Int × Int)
  | newParams (p : Nat) (size : Int × Int)
  /-- The buffer that was being made is made. -/
  | created (p b : Nat)
  | newViewport (v : Nat) (surface : Option Nat)
  | attach (surface : Nat) (b : Option Nat)
  | scale (surface : Nat) (factor : Int)
  /-- A viewport sets its surface's destination, or takes it away. -/
  | destination (v : Nat) (size : Option (Int × Int))
  | commit (surface : Nat)
  deriving DecidableEq, Repr

/-- A change of one surface's content. -/
def Contents.adjust (c : Contents) (surface : Nat) (f : Content → Content) : Contents :=
  { c with surfaces := Function.update c.surfaces surface (f (c.surfaces surface)) }

def Contents.apply (c : Contents) : SizeOp → Contents
  | .newBuffer b size => { c with buffers := Function.update c.buffers b (some size) }
  | .newParams p size => { c with params := Function.update c.params p (some size) }
  | .created p b => { c with buffers := Function.update c.buffers b (c.params p) }
  | .newViewport v surface => { c with viewports := Function.update c.viewports v surface }
  | .attach surface b => c.adjust surface fun x => { x with pendingBuffer := some (b.bind c.buffers) }
  | .scale surface factor => c.adjust surface fun x => { x with pendingScale := some factor }
  | .destination v size =>
      match c.viewports v with
      | some surface => c.adjust surface fun x => { x with pendingDestination := some size }
      | none => c
  | .commit surface => c.adjust surface Content.commit

/-! ## Section 2: What the Messages Are -/

def Arg.isNewId {ρ : Type} : Arg ρ → Bool
  | .newId _ => true
  | _ => false

namespace State

/-- What a request of an object changes of its own, or of the surface it is for. -/
def changeOp (s : State F) (o : Obj) (request : String) (args : List BridgeArg) : Option SizeOp :=
  match o.iface.name, request with
  | "wl_surface", "attach" =>
      some (.attach o.born (if uint args 0 ≠ 0 then (s.obj (uint args 0)).map Obj.born else none))
  | "wl_surface", "set_buffer_scale" => some (.scale o.born (max (int args 0) 1))
  | "wl_surface", "commit" => some (.commit o.born)
  | "wp_viewport", "set_destination" =>
      some (.destination o.born
        (if int args 0 > 0 ∧ int args 1 > 0 then some (int args 0, int args 1) else none))
  | "wp_viewport", "destroy" => some (.destination o.born none)
  | "zwp_linux_buffer_params_v1", "create" => some (.newParams o.born (int args 0, int args 1))
  | _, _ => none

/-- What the object that a request creates is. -/
def creationOp (s : State F) (o : Obj) (request : String) (args : List BridgeArg) : Option SizeOp :=
  match o.iface.name, request with
  | "wl_shm_pool", "create_buffer" => some (.newBuffer s.births (int args 2, int args 3))
  | "zwp_linux_buffer_params_v1", "create_immed" =>
      some (.newBuffer s.births (int args 1, int args 2))
  | "wp_viewporter", "get_viewport" =>
      some (.newViewport s.births ((s.obj (uint args 1)).map Obj.born))
  | _, _ => none

/-- What a message changes of the contents. -/
def sizeOps (s : State F) : Action → List SizeOp
  | .request m _ =>
      match s.obj m.sender with
      | some o =>
          match o.kind, o.iface.requests[m.opcode]? with
          | .upstream _, some desc =>
              (s.changeOp o desc.name m.args).toList ++
                if m.args.any Arg.isNewId then (s.creationOp o desc.name m.args).toList else []
          | _, _ => []
      | none => []
  | .event e =>
      match s.receiver e with
      | some (_, o, desc) =>
          if o.iface.name = "zwp_linux_buffer_params_v1" ∧ desc.name = "created" ∧
              desc.childInterface.isSome ∧ s.nextServerId + 1 < 2 ^ 32 then
            [.created o.born s.births]
          else []
      | none => []
  | _ => []

end State

/-- A step of the proxy, and of the contents beside it. -/
def trackedStep (E : Setting F) (x : State F × Contents) (a : Action) : Option (State F × Contents) :=
  (step E x.1 a).map fun s' => (s', (x.1.sizeOps a).foldl Contents.apply x.2)

/-! ## Section 3: The Condition -/

/-- An id denotes the object it was recorded for, if it denotes one. -/
def State.Denotes (s : State F) (r : Ref) : Prop :=
  ∀ o ∈ s.obj r.id, r.born = some o.born

instance (s : State F) (r : Ref) : Decidable (s.Denotes r) := by
  unfold State.Denotes
  infer_instance

/-- A commit of a surface that has a buffer when it has a destination, and otherwise the
buffer, if any, is still there. -/
def CommitOk (s : State F) (x : Surface) (c : Content) : Prop :=
  match x.destination with
  | some _ => c.buffer.isSome
  | none => ∀ r ∈ x.attached, (s.obj r.id).map Obj.born = r.born

instance (s : State F) (x : Surface) (c : Content) : Decidable (CommitOk s x c) := by
  unfold CommitOk
  split <;> infer_instance

def Role.isParams : Role → Bool
  | .bufferParams _ => true
  | _ => false

/-- A commit is of a surface, and as above. A viewport is made for a surface that is there,
and later its id denotes no other. -/
def OpOk (x : State F × Contents) : SizeOp → Role → Prop
  | .commit b, .surface c => CommitOk x.1 c.commit (x.2.surfaces b).commit
  | .newViewport _ surface, _ => surface.isSome
  | .destination _ _, .viewport r => x.1.Denotes r
  | .commit _, _ | .destination _ _, _ => False
  | _, _ => True

instance (x : State F × Contents) (op : SizeOp) (role : Role) : Decidable (OpOk x op role) := by
  unfold OpOk
  split <;> infer_instance

/-- The changes of a request are as above, and a buffer that the compositor made comes as a
new object, as the protocol has it. -/
def SizeOk (x : State F × Contents) : Action → Prop
  | .request m answer => ∀ op ∈ x.1.sizeOps (.request m answer), ∀ role ∈ x.1.role m.sender,
      OpOk x op role
  | .event e => ∀ y ∈ x.1.receiver e, y.2.1.iface.name = "zwp_linux_buffer_params_v1" →
      y.2.2.name = "created" → e.args.map Arg.isNewId = [true] ∧ y.2.1.role.isParams
  | _ => True

instance (x : State F × Contents) : DecidablePred (SizeOk x) := by
  intro a
  unfold SizeOk
  split <;> infer_instance

end Psbox.Decorations
