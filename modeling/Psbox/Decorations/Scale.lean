import Psbox.Decorations.State

/-!
# Title Bars and Scales

What the proxy works out from its tables: the title bar over a window, the scale a
surface prefers, and the mode the bridge is told for an output
(`decorations/scale.rs` and the helpers of `decorations/proxy.rs`).
-/

namespace Psbox.Decorations

/-! ## Section 1: Scales -/

/-- `scale::mode`: the mode the bridge is told for an output. -/
def scaledMode (wholeRatio : Int → Int → Int) (scale : XwaylandScale) (mode : Int × Int)
    (logical : Option (Int × Int)) (rotated : Bool) (whole : Option Int) : Int × Int :=
  match logical.filter fun l => l.1 > 0 ∧ l.2 > 0 with
  | none => mode
  | some (lw, lh) =>
      let (lw, lh) := if rotated then (lh, lw) else (lw, lh)
      match scale with
      | .native => mode
      | .roundUp =>
          let s := max 1 (min 16 (whole.getD (wholeRatio mode.1 lw)))
          let (w, h) := (saturate (lw * s), saturate (lh * s))
          if (mode.1 - w).natAbs < s ∧ (mode.2 - h).natAbs < s then mode else (w, h)
      | .compositor => (lw, lh)

/-- `scale::preferred`: a fractional scale, in 120ths. -/
def preferredScale (scale : XwaylandScale) (preferred : Nat) : Nat :=
  match scale with
  | .native => preferred
  | .roundUp => min (max ((preferred + 119) / 120) 1 * 120) 4294967295
  | .compositor => 120

/-- `scale::whole`: a whole scale. -/
def wholeScale (scale : XwaylandScale) (factor : Int) : Int :=
  match scale with
  | .native | .roundUp => factor
  | .compositor => 1

namespace State

variable {F : Type} (E : Setting F)

/-! ## Section 2: Title Bars -/

/-- The frame of a toplevel, 0 high when there is none. -/
def frameOffset (s : State F) (toplevel : Id) : Int :=
  ((s.frames.lookup toplevel).map fun f => E.drawing.offset f.drawn).getD 0

/-- The toplevel an `xdg_surface` is. -/
def toplevelOf (s : State F) (xdgSurface : Id) : Option Id :=
  match s.role xdgSurface with
  | some (.xdgSurface _ (some t)) => some t.id
  | _ => none

/-- The height of the title bar above the toplevel an `xdg_surface` is. -/
def header (s : State F) (xdgSurface : Id) : Int :=
  match s.toplevelOf xdgSurface with
  | some t => s.frameOffset E t
  | none => 0

/-- The toplevel of an `xdg_surface`, when it has a frame: `frame_of_xdg_surface`. -/
def framedToplevel (s : State F) (xdgSurface : Id) : Option Id :=
  (s.toplevelOf xdgSurface).filter fun t => (s.frames.lookup t).isSome

def popupParent (s : State F) (popup : Id) : Id :=
  match s.role popup with
  | some (.popup parent) => parent.id
  | _ => 0

/-- Sends a positioner's anchor, `offset` down. -/
def sendAnchor (s : State F) (up : Option ObjectId) (anchor : Option (Int × Int × Int × Int))
    (offset : Int) : State F :=
  match anchor with
  | some (x, y, w, h) => s.requestUpstream up "set_anchor_rect" [x, saturate (y + offset), w, h]
  | none => s

/-- Sends a positioner's parent size, `offset` higher. -/
def sendParentSize (s : State F) (up : Option ObjectId) (version : Nat) (size : Option (Int × Int))
    (offset : Int) : State F :=
  match size with
  | some (w, h) =>
      if version ≥ 3 then s.requestUpstream up "set_parent_size" [w, saturate (h + offset)] else s
  | none => s

def setPositioner (s : State F) (positioner : Id) (offset : Int) : State F :=
  match s.obj positioner with
  | some o =>
      match o.kind, o.role with
      | .upstream up, .positioner anchor parentSize =>
          (s.sendAnchor up anchor offset).sendParentSize up o.version parentSize offset
      | _, _ => s
  | none => s

/-- Moves a positioner's anchor `offset` down, and grows the parent size it was given by
as much. -/
def offsetPositioner (s : State F) (positioner : Id) (offset : Int) : State F :=
  if offset ≠ 0 then s.setPositioner positioner offset else s

/-- Puts back what `offset_positioner` changed. -/
def restorePositioner (s : State F) (positioner : Id) (offset : Int) : State F :=
  if offset ≠ 0 then s.setPositioner positioner 0 else s

/-- The bridge's size limits, which leave out the title bar. -/
def resendSizeLimits (s : State F) (toplevel : Option ObjectId) (min max : Int × Int) (offset : Int) :
    State F :=
  [("set_min_size", min), ("set_max_size", max)].foldl (fun s limit =>
    if limit.2 ≠ (0, 0) then
      s.requestUpstream toplevel limit.1
        [limit.2.1, if limit.2.2 > 0 then saturate (limit.2.2 + offset) else limit.2.2]
    else s) s

/-! ## Section 3: The Scale of a Surface -/

/-- The buffer scale a surface prefers: what the compositor says, or the largest scale
of the outputs it is on. -/
def surfaceScale (s : State F) (surface : Id) : Int :=
  match s.role surface with
  | some (.surface f) =>
      f.preferredScale.getD (((f.outputs.filterMap fun o =>
        match s.role o.id with
        | some (.output out) => some (out.scale.getD 1)
        | _ => none).max?).getD 1)
  | _ => 1

/-- Updates the scale of frames whose surfaces `affected` matches. -/
def rescale (s : State F) (affected : Id → Bool) : State F :=
  ((s.frames.entries.filter fun e => affected e.2.surface.id).map fun e =>
    (e.1, s.surfaceScale e.2.surface.id)).foldl (fun s change =>
      s.adjustFrame change.1 fun f => { f with drawn := E.drawing.setScale change.2 f.drawn }) s

/-! ## Section 4: The Mode of an Output -/

/-- The mode the bridge should be told for one of its outputs, once the compositor has
given its current mode. -/
def toldMode (s : State F) (output : Id) : Option (Int × Int) :=
  match s.role output with
  | some (.output o) =>
      o.mode.map fun mode =>
        let fallback := s.outputs.lookup o.global
        let logical := o.logical.or (fallback.map OutputGeometry.logical)
        let rotated := match o.logical, fallback with
          | none, some g => g.rotated
          | _, _ => o.rotated
        scaledMode E.wholeRatio E.scale mode.2.1 logical rotated o.scale
  | _ => none

/-- The `zxdg_output_v1`s for an output, with their versions. -/
def xdgOutputs (s : State F) (output : Id) : List (Id × Nat) :=
  s.objects.entries.filterMap fun e =>
    match e.2.role with
    | .xdgOutput r => if r.id = output then some (e.1, e.2.version) else none
    | _ => none

/-- Tells a `zxdg_output_v1` the logical size. -/
def tellLogicalSize (logical : Int × Int) (s : State F) (x : Id × Nat) : State F :=
  let s := s.note (.own x.1 "logical_size" [.int logical.1, .int logical.2])
  if x.2 < 3 then s.note (.own x.1 "done" []) else s

/-- Tells the bridge an output's current mode when that is new or changed, with a
`logical_size` on each of its `zxdg_output_v1`s for the output. With `done`, the change
ends there too, with the output's `done`. -/
def tellMode (s : State F) (output : Id) (done : Bool) : State F :=
  match s.toldMode E output, s.role output with
  | some told, some (.output o) =>
      match o.mode with
      | some (flags, _, refresh) =>
          let s' := s.adjustRole output fun
            | .output o => .output { o with told := some (flags, told, refresh) }
            | r => r
          if o.told = some (flags, told, refresh) then s'
          else
            let version := ((s.obj output).map Obj.version).getD 1
            let s' := s'.note (.own output "mode" [.uint flags, .int told.1, .int told.2, .int refresh])
            let logical := if o.rotated then (told.2, told.1) else told
            let s' := (s.xdgOutputs output).foldl (tellLogicalSize logical) s'
            if done ∧ version ≥ 2 then s'.note (.own output "done" []) else s'
      | none => s
  | _, _ => s

end State

end Psbox.Decorations
