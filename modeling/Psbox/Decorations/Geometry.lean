import Psbox.Decorations.Links

/-!
# Window Geometry

The window geometry of a toplevel, as the compositor has it: what was set, once the surface commits.
While there is a title bar, the bridge's own geometry is kept back, and the title bar sets one that
takes it in. Three things are lost on the way: what was asked for before the title bar was added, what
was asked for when it goes before it set anything, and the whole surface, which stays as large as it
was when the title bar went. Where that does not happen the geometry follows (`geometry_follows`).
-/

namespace Psbox.Decorations

open Psbox.Foundations

variable {A : Type} {L : Library A} {E : Setting (Window A)}

/-! ## Section 1: What Is Shown -/

/-- What there is of a window's geometry outside the proxy: what the bridge asked for last, what the
compositor was told since the last commit, and what it has. -/
structure Shown where
  own : Option Geometry := none
  pending : Option Geometry := none
  current : Option Geometry := none
  /-- The size that the window had when its title bar went, until the bridge asks for a geometry. -/
  left : Option (Int × Int) := none
  deriving DecidableEq, Repr

def Shown.ask (g : Shown) (geometry : Geometry) : Shown :=
  { g with own := some geometry, left := none }

def Shown.set (g : Shown) (geometry : Option Geometry) : Shown :=
  { g with pending := geometry.or g.pending }

def Shown.commit (g : Shown) : Shown :=
  { g with pending := none, current := g.pending.or g.current }

/-- What the compositor will have after a commit. -/
def Shown.latest (g : Shown) : Option Geometry :=
  g.pending.or g.current

/-- The arguments of `xdg_surface.set_window_geometry`. -/
def geometryArgs {ρ : Type} : List (Arg ρ) → Option Geometry
  | [.int x, .int y, .int w, .int h] => some (x, y, w, h)
  | _ => none

/-- What a request is to the geometry of a window. -/
inductive Touch where
  | frames
  | unframes
  | asks (geometry : Geometry)
  | commits
  deriving DecidableEq, Repr

/-- What a request of a decoration is, which adds a title bar or takes it away. -/
def decorationTouch (m : Request) : Touch :=
  match m.opcode, m.args with
  | 0, [] => .unframes
  | 1, [.uint mode] => if mode = serverSide then .frames else .unframes
  | _, _ => .frames

def Win.touch {F : Type} (W : Win) (s : State F) (m : Request) : Option Touch :=
  match s.obj m.sender with
  | none => none
  | some o =>
      match o.kind, o.iface.name, (o.iface.requests[m.opcode]?).map MessageDesc.name with
      | .decoration toplevel, _, _ =>
          if toplevel.id = W.toplevel then some (decorationTouch m) else none
      | .upstream _, "xdg_surface", some "set_window_geometry" =>
          if m.sender = W.xdgSurface then (geometryArgs m.args).map .asks else none
      | .upstream _, "wl_surface", some "commit" => if m.sender = W.surface then some .commits else none
      | _, _, _ => none

/-- Whether a step passes a request of this name on. -/
def State.passes {F : Type} (E : Setting F) (s : State F) (a : Action) (request : String) : Bool :=
  (step E s a).any fun s' => (s'.log.drop s.log.length).any fun
    | .passed _ name _ => name = request
    | _ => false

/-- The geometry that the title bar of a window sets at a commit of the window's surface. -/
def Win.drawn (W : Win) (L : Library A) (s : State (Window A)) : Option Geometry :=
  let out := s.commitSurface W.surface
  match out.1.framedBy W.surface with
  | some t =>
      if t = W.toplevel then
        (out.1.frames.lookup t).bind fun f => (f.drawn.commit L out.2 f.bridgeGeometry).2
      else none
  | none => none

/-- What is shown of a window goes on with each step. -/
def Win.shows (W : Win) (L : Library A) (E : Setting (Window A)) (s : State (Window A)) (a : Action) (g : Shown) :
    Shown :=
  match a with
  | .request m _ =>
      match W.touch s m with
      | some .unframes =>
          match s.frames.lookup W.toplevel with
          | some f =>
              let sent := f.drawn.remove f.bridgeGeometry
              let left := if sent.isSome ∧ f.bridgeGeometry = none then
                  f.drawn.content.map fun size => ((size.1 : Int), (size.2 : Int))
                else g.left
              { g.set sent with left := left }
          | none => g
      | some (.asks geometry) =>
          if s.passes E a "set_window_geometry" then (g.ask geometry).set (some geometry) else g.ask geometry
      | some .commits =>
          let g := g.set (W.drawn L s)
          if s.passes E a "commit" then g.commit else g
      | _ => g
  | _ => g

/-! ## Section 2: What Is to Be Shown -/

/-- A window geometry with a frame's borders around it. -/
def Library.extended (L : Library A) (a : A) (g : Geometry) : Geometry :=
  let size := L.addBorders g.2.2.1.toNat g.2.2.2.toNat a
  (saturate (g.1 + (L.location a).1), saturate (g.2.1 + (L.location a).2), asI32 size.1, asI32 size.2)

/-- The size of what a commit of the window's surface commits. -/
def Win.contentSize {F : Type} (W : Win) (x : State F × Contents) : Option (Int × Int) :=
  (x.1.obj W.surface).bind fun o => (x.2.surfaces o.born).commit.size

/-- After a commit of a window with content, the geometry the compositor has is the bridge's own, or
the whole surface, with the borders of the title bar around it while there is one. -/
def Win.GeometryRight (W : Win) (L : Library A) (x : State (Window A) × Contents) (a : Action)
    (s' : State (Window A)) (g : Shown) : Prop :=
  ∀ m answer, a = .request m answer → W.touch x.1 m = some .commits → ∀ w h, W.contentSize x = some (w, h) →
      match s'.frames.lookup W.toplevel with
      | some f => g.current = some (L.extended f.drawn.inner (g.own.getD (0, 0, w, h)))
      | none => g.current.getD (0, 0, w, h) = g.own.getD (0, 0, w, h)

/-- A size that a frame can have. -/
def InLimits (w h : Int) : Prop :=
  (0 < w ∧ w ≤ 32767) ∧ 0 < h ∧ h ≤ 32767

instance (w h : Int) : Decidable (InLimits w h) :=
  inferInstanceAs (Decidable (_ ∧ _))

/-- The window lives on. -/
def Win.Lives {F : Type} (W : Win) (E : Setting F) (s : State F) (a : Action) : Prop :=
  ∀ s' ∈ step E s a, ∀ id ∈ [W.surface, W.xdgSurface, W.toplevel], (s'.obj id).isSome

instance {F : Type} (W : Win) (E : Setting F) (s : State F) (a : Action) : Decidable (W.Lives E s a) :=
  inferInstanceAs (Decidable (∀ s' ∈ step E s a, ∀ id ∈ [W.surface, W.xdgSurface, W.toplevel],
    (s'.obj id).isSome))

/-- The window is given sizes that a frame can have. -/
def Win.SizesOk {F : Type} (W : Win) (x : State F × Contents) : Action → Prop
  | .request m _ =>
      match W.touch x.1 m with
      | some (.asks geometry) => InLimits geometry.2.2.1 geometry.2.2.2
      | some .commits => ∀ size ∈ W.contentSize x, InLimits size.1 size.2
      | _ => True
  | _ => True

instance {F : Type} (W : Win) (x : State F × Contents) : DecidablePred (W.SizesOk x)
  | .request m answer => by
      unfold Win.SizesOk
      dsimp only
      split <;> infer_instance
  | .event _ | .setOutput _ _ | .close _ => inferInstanceAs (Decidable True)

/-- No geometry of the bridge's is lost: none was asked for when a title bar is added, one that was asked
for since was set when it goes, and one that it left behind is still the size of the window. -/
def Win.NothingLost (W : Win) (x : State (Window A) × Contents) (g : Shown) : Action → Prop
  | .request m answer =>
      match W.touch x.1 m with
      | some .frames => answer.framed → (x.1.frames.lookup W.toplevel).isNone → g.own = none
      | some .unframes => ∀ f ∈ x.1.frames.lookup W.toplevel, f.bridgeGeometry.isSome → f.drawn.geometry.isSome
      | some .commits => (x.1.frames.lookup W.toplevel).isNone → g.own = none →
          ∀ size ∈ W.contentSize x, ∀ left ∈ g.left, left = size
      | _ => True
  | _ => True

instance (W : Win) (x : State (Window A) × Contents) (g : Shown) : DecidablePred (W.NothingLost x g)
  | .request m answer => by
      unfold Win.NothingLost
      dsimp only
      split <;> infer_instance
  | .event _ | .setOutput _ _ | .close _ => inferInstanceAs (Decidable True)

/-- A window whose objects are there and record each other, with its own title bar if any. -/
structure Win.Kept (W : Win) (s : State (Window A)) : Prop where
  linked : W.Linked s
  surface : ∃ o up, s.obj W.surface = some o ∧ o.iface.name = "wl_surface" ∧ o.kind = .upstream (some up)
  xdgSurface : ∃ o up, s.obj W.xdgSurface = some o ∧ o.iface.name = "xdg_surface" ∧ o.kind = .upstream (some up)
  toplevel : (s.obj W.toplevel).isSome
  frames : ∀ t c, s.frameCore t = some c → (c.surface = W.surface ↔ t = W.toplevel)

/-! ## Section 3: Windows Alone -/

private theorem clampSize_of_limits {v : Int} (hpos : 0 < v) (hle : v ≤ 32767) :
    clampSize v = some ⟨v.toNat, by omega⟩ := by
  unfold clampSize
  rw [dif_pos hpos]
  congr 2
  unfold maxSize
  omega

private theorem clampSize_le {v : Int} {n : ℕ+} (h : clampSize v = some n) : (n : Nat) ≤ maxSize := by
  unfold clampSize at h
  split at h
  · rw [← Option.some.inj h]
    exact Nat.min_le_right _ _
  · cases h

private theorem asI32_of_le {n : Nat} (h : n ≤ maxSize) : asI32 n = n := by
  unfold maxSize at h
  unfold asI32
  apply Int.bmod_eq_of_le <;> omega

/-- Within the limits of a frame, its borders are put around the geometry itself. -/
theorem framed_of_limits (a : A) {g : Geometry} (h : InLimits g.2.2.1 g.2.2.2) :
    Window.framed L a g = L.extended a g := by
  obtain ⟨⟨hw, hw'⟩, hh, hh'⟩ := h
  unfold Window.framed Library.extended
  dsimp only
  rw [clampSize_of_limits hw hw', clampSize_of_limits hh hh']
  rfl

namespace Window

variable {w : Window A} {size : Option (Int × Int)}

private theorem geometry_follow : (w.follow L size).geometry = w.geometry := by
  unfold follow
  split
  · split <;> rfl
  · rfl

private theorem content_follow (w : Window A) (size : Option (Int × Int)) : (w.follow L size).content = w.content ∨
    ∃ x y width height, size = some (x, y) ∧ clampSize x = some width ∧ clampSize y = some height ∧
      (w.follow L size).content = some (width, height) := by
  unfold follow
  split
  · rename_i both hboth
    obtain ⟨⟨x, y⟩, hsize, hclamped⟩ := Option.bind_eq_some_iff.mp hboth
    obtain ⟨width, hwidth, hrest⟩ := Option.bind_eq_some_iff.mp hclamped
    obtain ⟨height, hheight, rfl⟩ := Option.map_eq_some_iff.mp hrest
    right
    refine ⟨x, y, width, height, hsize, hwidth, hheight, ?_⟩
    split
    · rfl
    · rename_i hsame
      exact not_not.mp hsame
  · exact .inl rfl

private theorem content_follow_of_clamp {x y : Int} {width height : ℕ+} (hx : clampSize x = some width)
    (hy : clampSize y = some height) : (w.follow L (some (x, y))).content = some (width, height) := by
  unfold follow
  simp only [Option.bind_some, hx, hy, Option.map_some]
  split
  · rfl
  · rename_i hsame
    exact not_not.mp hsame

/-- The size of a window that a frame can have. -/
theorem content_follow_of_limits {x y : Int} (h : InLimits x y) :
    ∃ width height : ℕ+, (w.follow L (some (x, y))).content = some (width, height) ∧ (width : Nat) = x ∧
      (height : Nat) = y := by
  obtain ⟨⟨hx, hx'⟩, hy, hy'⟩ := h
  refine ⟨⟨x.toNat, by omega⟩, ⟨y.toNat, by omega⟩, ?_, ?_, ?_⟩
  · exact content_follow_of_clamp (clampSize_of_limits hx hx') (clampSize_of_limits hy hy')
  · show ((x.toNat : Nat) : Int) = x
    omega
  · show ((y.toNat : Nat) : Int) = y
    omega

private theorem drawn_same : (w.drawn L).content = w.content ∧ (w.drawn L).geometry = w.geometry := by
  unfold drawn
  split <;> exact ⟨rfl, rfl⟩

/-- A commit of a window that never had content sets nothing. -/
theorem commit_of_none (bridge : Option Geometry) (h : (w.follow L size).content = none) :
    (w.commit L size bridge).1.content = none ∧ (w.commit L size bridge).1.geometry = w.geometry ∧
      (w.commit L size bridge).2 = none := by
  unfold commit
  dsimp only
  rw [h]
  exact ⟨h, geometry_follow, rfl⟩

/-- A commit sets the geometry that takes the title bar in, unless it is set already. -/
theorem commit_of_some (bridge : Option Geometry) {content : ℕ+ × ℕ+}
    (h : (w.follow L size).content = some content) :
    (w.commit L size bridge).1.content = some content ∧
      (w.commit L size bridge).1.geometry =
        some (framed L (w.commit L size bridge).1.inner (wanted bridge content)) ∧
      ((w.commit L size bridge).2 = (w.commit L size bridge).1.geometry ∨
        (w.commit L size bridge).2 = none ∧ w.geometry = (w.commit L size bridge).1.geometry) := by
  obtain ⟨hcontent, hgeometry⟩ := drawn_same (L := L) (w := w.follow L size)
  unfold commit
  dsimp only
  rw [h]
  dsimp only
  split
  · exact ⟨hcontent.trans h, rfl, .inl rfl⟩
  · rename_i hsame
    refine ⟨hcontent.trans h, not_not.mp hsame, .inr ⟨rfl, ?_⟩⟩
    rw [hgeometry, geometry_follow]

end Window

/-! ## Section 4: Title Bars at a Request -/

namespace State

variable {s s' : State (Window A)}

private theorem framedBy_eq_some {surface t : Id} (h : s.framedBy surface = some t) :
    ∃ f, s.frames.lookup t = some f ∧ f.surface.id = surface := by
  obtain ⟨⟨t', f⟩, hfind, rfl⟩ := Option.map_eq_some_iff.mp h
  have hsurface := List.find?_some hfind
  refine ⟨f, AList.mem_lookup_iff.mpr (List.mem_of_find?_eq_some hfind), ?_⟩
  simpa using hsurface

private theorem framedBy_eq_none {surface : Id} (h : s.framedBy surface = none) {t : Id} {f : Frame (Window A)}
    (hf : s.frames.lookup t = some f) : f.surface.id ≠ surface := by
  have hnone := List.find?_eq_none.mp (Option.map_eq_none_iff.mp h) ⟨t, f⟩ (AList.mem_lookup_iff.mp hf)
  simpa using hnone

private theorem toplevelOf_eq_some {xdgSurface t : Id} (h : s.toplevelOf xdgSurface = some t) :
    ∃ surface, s.link xdgSurface = some (.xdgSurface surface (some t)) := by
  unfold toplevelOf at h
  split at h
  · rename_i surface t' hrole
    cases h
    exact ⟨surface.id, by rw [link, hrole]; rfl⟩
  · cases h

private theorem toplevelOf_of_link {xdgSurface surface t : Id} (h : s.link xdgSurface = some (.xdgSurface surface (some t))) :
    s.toplevelOf xdgSurface = some t := by
  obtain ⟨r, hr, hlink⟩ := Option.bind_eq_some_iff.mp h
  cases r with
  | xdgSurface r t' =>
      obtain ⟨_, ht⟩ := Link.xdgSurface.inj (Option.some.inj hlink)
      obtain ⟨t'', rfl, rfl⟩ := Option.map_eq_some_iff.mp ht
      unfold toplevelOf
      rw [hr]
  | _ => cases hlink

private theorem beforeRequest_commit (s : State (Window A)) (sender : Id) (args : List BridgeArg) :
    s.beforeRequest E sender "wl_surface" "commit" args =
      match (s.commitSurface sender).1.framedBy sender with
      | some t => ((s.commitSurface sender).1.adjustFrame t fun f =>
          { f with drawn := E.drawing.commit (s.commitSurface sender).2 f.bridgeGeometry f.drawn }, args, true)
      | none => ((s.commitSurface sender).1, args, true) := rfl

private theorem beforeRequest_geometry (s : State (Window A)) (sender : Id) (args : List BridgeArg) :
    s.beforeRequest E sender "xdg_surface" "set_window_geometry" args =
      match s.framedToplevel sender with
      | some t => (s.adjustFrame t fun f =>
          { f with bridgeGeometry := some (int args 0, int args 1, int args 2, int args 3) }, args, false)
      | none => (s, args, true) := rfl

/-- The requests that change more of title bars than how they look, besides those of decorations. -/
def windowRequests : List (String × String) :=
  [("wl_surface", "commit"), ("xdg_surface", "set_window_geometry"), ("xdg_toplevel", "destroy")]

/-- What a request does to title bars. -/
theorem frames_cases (hdraws : E.drawing = L.drawing) {m : Request} {answer : Answer}
    (hs : s.request E m answer = .ok s') :
    ∃ o desc, s.obj m.sender = some o ∧ o.iface.requests[m.opcode]? = some desc ∧
      wellTyped m.args desc.signature ∧
        ((∃ toplevel, o.kind = .decoration toplevel ∧ s.decorationRequest E m toplevel.id answer = .ok s') ∨
          (∃ up, o.kind = .upstream up ∧ (o.iface.name, desc.name) ∈ windowRequests ∧
            s.forward E o desc up m answer = .ok s') ∨
          (∀ toplevel, o.kind ≠ .decoration toplevel) ∧
            (∀ up, o.kind = .upstream up → (o.iface.name, desc.name) ∉ windowRequests) ∧ SameFrames s s') := by
  obtain ⟨o, desc, ho, hdesc, htyped, _, hcases⟩ := request_cases hs
  refine ⟨o, desc, ho, hdesc, htyped, ?_⟩
  have hgone : ∀ (t : State (Window A)) id, SameFrames t ((t.destroy id).deleteId id) := by
    intro t id
    apply SameFrames.of_frames
    unfold deleteId
    split <;> rfl
  rcases hcases with ⟨hkind, hs⟩ | ⟨hkind, hs⟩ | ⟨toplevel, hkind, hs⟩ | ⟨up, hkind, ⟨hregistry, hs⟩ | ⟨_, hs⟩⟩
  -- The display
  · refine .inr (.inr ⟨fun _ hk => ?_, fun _ hk => ?_, ?_⟩)
    · cases hkind.symm.trans hk
    · cases hkind.symm.trans hk
    · obtain ⟨child, name, up, _, _, _, rfl | ⟨args, rfl⟩⟩ := displayRequest_cases hs
      · exact SameFrames.of_frames rfl
      · exact SameFrames.of_frames rfl
  -- The decoration manager
  · refine .inr (.inr ⟨fun _ hk => ?_, fun _ hk => ?_, ?_⟩)
    · cases hkind.symm.trans hk
    · cases hkind.symm.trans hk
    · rcases managerRequest_cases hs with ⟨_, rfl⟩ | ⟨_, id, toplevel, _, rfl⟩
      · exact hgone _ _
      · exact SameFrames.of_frames rfl
  · exact .inl ⟨toplevel, hkind, hs⟩
  -- The registry
  · refine .inr (.inr ⟨fun _ hk => ?_, fun _ _ hmem => ?_, ?_⟩)
    · cases hkind.symm.trans hk
    · rw [hregistry] at hmem
      simp [windowRequests] at hmem
    · obtain ⟨child, _, _, ⟨version, rfl⟩ | ⟨global, version, up', name, _, rfl⟩⟩ := bind_cases hs
      · exact SameFrames.of_frames rfl
      · exact SameFrames.of_frames rfl
  -- A forwarded object
  · by_cases hmem : (o.iface.name, desc.name) ∈ windowRequests
    · exact .inr (.inl ⟨up, hkind, hmem, hs⟩)
    · refine .inr (.inr ⟨fun _ hk => ?_, fun _ _ => hmem, ?_⟩)
      · cases hkind.symm.trans hk
      · have hother : ∀ iface request, (iface, request) ∈ windowRequests →
            ¬(o.iface.name = iface ∧ desc.name = request) := by
          rintro iface request hin ⟨rfl, rfl⟩
          exact hmem hin
        have hbefore := sameFrames_beforeRequest hdraws s m.sender m.args (hother _ _ (by decide))
          (hother _ _ (by decide)) (hother _ _ (by decide))
        rcases forward_cases hs with ⟨_, rfl⟩ | ⟨out, _, _, rfl⟩
        · exact hbefore
        · exact hbefore.trans (SameFrames.of_frames (frames_complete _ _ _ _ _ _ _ _))

end State

namespace Win.Kept

variable {W : Win} {s s' : State (Window A)}

/-- The title bars of other windows. -/
theorem others (h : W.Kept s) {t : Id} (ht : t ≠ W.toplevel) {c : FrameCore} (hc : s.frameCore t = some c) :
    c.surface ≠ W.surface :=
  fun hsurface => ht ((h.frames t c hc).mp hsurface)

/-- The title bar around the surface is the window's. -/
theorem framedBy (h : W.Kept s) {t : State (Window A)} (hframes : t.frames = s.frames) :
    t.framedBy W.surface = (s.frames.lookup W.toplevel).map fun _ => W.toplevel := by
  cases hby : t.framedBy W.surface with
  | none =>
      cases hframe : s.frames.lookup W.toplevel with
      | none => rfl
      | some f =>
          have hne := State.framedBy_eq_none hby (hframes ▸ hframe)
          have hcore : s.frameCore W.toplevel = some f.core := by rw [State.frameCore, hframe]; rfl
          exact absurd ((h.frames _ _ hcore).mpr rfl) hne
  | some t' =>
      obtain ⟨f, hf, hsurface⟩ := State.framedBy_eq_some hby
      rw [hframes] at hf
      have hcore : s.frameCore t' = some f.core := by rw [State.frameCore, hf]; rfl
      obtain rfl := (h.frames _ _ hcore).mp hsurface
      rw [hf]
      rfl

/-- What a decoration of some toplevel does. -/
theorem decoration (hdraws : E.drawing = L.drawing) (h : W.Kept s) {m : Request} {answer : Answer} {toplevel : Id}
    (hs : s.decorationRequest E m toplevel answer = .ok s') :
    (∀ t, t ≠ W.toplevel → ∀ c, s'.frameCore t = some c → c.surface ≠ W.surface) ∧
      (toplevel ≠ W.toplevel → s'.frameCore W.toplevel = s.frameCore W.toplevel) ∧
      ((m.opcode, m.args) = (0, []) ∨ (∃ mode, (m.opcode, m.args) = (1, [.uint mode]) ∧ mode ≠ serverSide) →
        toplevel = W.toplevel → s'.frameCore W.toplevel = none) ∧
      ((m.opcode, m.args) = (2, []) ∨ (m.opcode, m.args) = (1, [.uint serverSide]) → toplevel = W.toplevel →
        s'.frameCore W.toplevel = s.frameCore W.toplevel ∨
          answer.framed ∧ s.frameCore W.toplevel = none ∧ s'.frameCore W.toplevel =
            some { surface := W.surface, asked := none, content := none, set := none }) := by
  -- Without the toplevel's frame all others are as they were.
  have hremoved : ∀ {u : State (Window A)}, (s.removeFrame toplevel).SameFrames u →
      (∀ t, t ≠ W.toplevel → ∀ c, u.frameCore t = some c → c.surface ≠ W.surface) ∧
      (toplevel ≠ W.toplevel → u.frameCore W.toplevel = s.frameCore W.toplevel) ∧
      (toplevel = W.toplevel → u.frameCore W.toplevel = none) := by
    intro u hu
    refine ⟨fun t ht c hc => ?_, fun hne => ?_, fun hsame => ?_⟩
    · rw [hu, State.frameCore_removeFrame] at hc
      split at hc
      · cases hc
      · exact h.others ht hc
    · rw [hu, State.frameCore_removeFrame, if_neg (Ne.symm hne)]
    · rw [hu, State.frameCore_removeFrame, if_pos hsame.symm]
  -- With it the window's surface is still in no other frame.
  have hadded : ∀ {u : State (Window A)}, s.SameFrames u ∨
      (∃ v, s.addFrame E toplevel answer.framed = some v ∧ v.SameFrames u) →
      (∀ t, t ≠ W.toplevel → ∀ c, u.frameCore t = some c → c.surface ≠ W.surface) ∧
      (toplevel ≠ W.toplevel → u.frameCore W.toplevel = s.frameCore W.toplevel) ∧
      (toplevel = W.toplevel → u.frameCore W.toplevel = s.frameCore W.toplevel ∨
          answer.framed ∧ s.frameCore W.toplevel = none ∧ u.frameCore W.toplevel =
            some { surface := W.surface, asked := none, content := none, set := none }) := by
    rintro u (hsame | ⟨v, hv, hsame⟩)
    · refine ⟨fun t ht c hc => ?_, fun _ => hsame _, fun _ => .inl (hsame _)⟩
      rw [hsame] at hc
      exact h.others ht hc
    rcases State.frameCore_addFrame hdraws hv with ⟨_, rfl⟩ | ⟨hframed, hnone, surface, xdgSurface, t, hlink, hlink',
      hnew, hother⟩
    · refine ⟨fun t ht c hc => ?_, fun _ => hsame _, fun _ => .inl (hsame _)⟩
      rw [hsame] at hc
      exact h.others ht hc
    · refine ⟨fun t' ht' c hc => ?_, fun hne => ?_, fun htop => ?_⟩
      · rw [hsame] at hc
        by_cases hid : t' = toplevel
        · -- A new one around the same surface would be this window's.
          subst hid
          rw [hnew] at hc
          cases hc
          intro hsurface
          dsimp only at hsurface
          subst hsurface
          obtain rfl := h.linked.ofSurface _ _ hlink'
          exact ht' (h.linked.ofXdgSurface _ hlink)
        · rw [hother t' hid] at hc
          exact h.others ht' hc
      · rw [hsame, hother _ (Ne.symm hne)]
      · subst htop
        refine .inr ⟨hframed, hnone, ?_⟩
        obtain rfl := Link.toplevel.inj (Option.some.inj (h.linked.toplevel.symm.trans hlink))
        obtain ⟨rfl, _⟩ := Link.xdgSurface.inj (Option.some.inj (h.linked.xdgSurface.symm.trans hlink'))
        rw [hsame]
        exact hnew
  have hgone : (s.removeFrame toplevel).SameFrames
      (((s.removeFrame toplevel).destroy m.sender).deleteId m.sender) := by
    apply State.SameFrames.of_frames
    unfold State.deleteId
    split <;> rfl
  have hserver : ∀ {u : State (Window A)}, u = s.setMode E m.sender toplevel serverSide answer.framed →
      s.SameFrames u ∨ ∃ v, s.addFrame E toplevel answer.framed = some v ∧ v.SameFrames u := by
    rintro u rfl
    unfold State.setMode
    rw [if_pos rfl]
    split
    · rename_i v hv
      exact .inr ⟨v, hv, State.SameFrames.of_frames rfl⟩
    · exact .inl (State.SameFrames.of_frames rfl)
  unfold State.decorationRequest at hs
  split at hs
  -- The decoration is destroyed.
  · rename_i hop hargs
    cases hs
    obtain ⟨hothers, hne, hsame⟩ := hremoved hgone
    refine ⟨hothers, hne, fun _ => hsame, ?_⟩
    rintro (hboth | hboth) _
    all_goals
      rw [hop] at hboth
      cases hboth
  -- A mode is set.
  · rename_i mode hop hargs
    split at hs
    · cases hs
      by_cases hmode : mode = serverSide
      · subst hmode
        obtain ⟨hothers, hne, hsame⟩ := hadded (hserver rfl)
        refine ⟨hothers, hne, ?_, fun _ => hsame⟩
        rintro (hboth | ⟨mode, hboth, hmode⟩) _
        · rw [hop] at hboth
          cases hboth
        · rw [hop, hargs] at hboth
          cases hboth
          exact absurd rfl hmode
      · have hset : s.setMode E m.sender toplevel mode answer.framed =
            (s.removeFrame toplevel).note (.own m.sender "configure" [.uint clientSide]) := if_neg hmode
        obtain ⟨hothers, hne, hsame⟩ := hremoved (u := s.setMode E m.sender toplevel mode answer.framed) (by
          rw [hset]
          exact State.SameFrames.of_frames rfl)
        refine ⟨hothers, hne, fun _ => hsame, ?_⟩
        rintro (hboth | hboth) _
        · rw [hop] at hboth
          cases hboth
        · rw [hop, hargs] at hboth
          cases hboth
          exact absurd rfl hmode
    · cases hs
  -- The mode is left to the proxy, which draws title bars.
  · rename_i hop hargs
    cases hs
    obtain ⟨hothers, hne, hsame⟩ := hadded (hserver rfl)
    refine ⟨hothers, hne, ?_, fun _ => hsame⟩
    rintro (hboth | ⟨mode, hboth, _⟩) _
    · rw [hop] at hboth
      cases hboth
    · rw [hop] at hboth
      cases hboth
  · cases hs

end Win.Kept

namespace State

variable {F : Type} {E : Setting F} {s s' t : State F}

private theorem passes_of_log {a : Action} (hs : step E s a = some s') {new : List Entry} (hlog : s'.log = s.log ++ new)
    (request : String) : s.passes E a request = new.any fun
      | .passed _ name _ => name = request
      | _ => false := by
  unfold passes
  rw [hs, Option.any_some, hlog, List.drop_left]

/-- A request of numbers goes out. -/
theorem passes_of_forward {o : Obj} {desc : MessageDesc} {up : ObjectId} {m : Request} {answer : Answer}
    {args : List BridgeArg} {out : List UpstreamArg} (hstep : step E s (.request m answer) = some s')
    (hsent : answer.sent.isSome)
    (hbefore : s.beforeRequest E m.sender o.iface.name desc.name m.args = (t, args, true)) (hlog : t.log = s.log)
    (hafter : t.afterRequest E m.sender o.iface.name desc.name args = .nothing)
    (htranslate : t.translate o.iface.name desc args desc.signature desc.argInterfaces = .ok { args := out })
    (hs : s.forward E o desc (some up) m answer = .ok s') : s.passes E (.request m answer) desc.name = true := by
  obtain ⟨x, hx⟩ := Option.isSome_iff_exists.mp hsent
  have hnew : ∃ later, s'.log = s.log ++ (.passed up desc.name out :: later) := by
    unfold forward at hs
    rw [hbefore] at hs
    dsimp only at hs
    rw [hafter, htranslate] at hs
    cases hs
    unfold State.complete
    rw [hx]
    show ∃ later, (if desc.isDestructor then
      (State.destroy (t.note (.passed up desc.name out)) m.sender).deleteId m.sender
      else t.note (.passed up desc.name out)).log = _
    rw [← hlog]
    split
    · unfold deleteId
      split
      · exact ⟨[.destroyed m.sender, .deleteId m.sender], by simp [note, destroy]⟩
      · exact ⟨[.destroyed m.sender], by simp [note, destroy]⟩
    · exact ⟨[], rfl⟩
  obtain ⟨later, hnew⟩ := hnew
  rw [passes_of_log hstep hnew]
  simp

/-- A request that destroys its object. -/
theorem obj_of_destructor {o : Obj} {desc : MessageDesc} {up : Option ObjectId} {m : Request} {answer : Answer}
    (hdestructor : desc.isDestructor)
    (hgoes : (s.beforeRequest E m.sender o.iface.name desc.name m.args).2.2 = true)
    (hs : s.forward E o desc up m answer = .ok s') : s'.obj m.sender = none := by
  rcases forward_cases hs with ⟨hkept, _⟩ | ⟨out, _, _, rfl⟩
  · rw [hgoes] at hkept
    cases hkept
  · unfold State.complete
    dsimp only
    rw [if_pos hdestructor, obj_deleteId, obj_destroy, if_pos rfl]

end State

namespace Win.Kept

variable {W : Win} {s s' : State (Window A)}

/-- Another toplevel goes, with its title bar. -/
theorem destroyed (h : W.Kept s) {o : Obj} {desc : MessageDesc} {up : Option ObjectId} {m : Request}
    {answer : Answer} (hiface : o.iface.name = "xdg_toplevel") (hname : desc.name = "destroy")
    (hdestructor : desc.isDestructor) (hlives : (s'.obj W.toplevel).isSome)
    (hs : s.forward E o desc up m answer = .ok s') :
    (∀ t, t ≠ W.toplevel → ∀ c, s'.frameCore t = some c → c.surface ≠ W.surface) ∧
      s'.frameCore W.toplevel = s.frameCore W.toplevel := by
  have hbefore : s.beforeRequest E m.sender o.iface.name desc.name m.args =
      ({ s with frames := s.frames.erase m.sender }, m.args, true) := by
    rw [hiface, hname]
    rfl
  have hsender : W.toplevel ≠ m.sender := by
    rintro hsame
    have hgone := State.obj_of_destructor hdestructor (by rw [hbefore]) hs
    rw [hsame, hgone] at hlives
    cases hlives
  have hframes : s'.frames = s.frames.erase m.sender := by
    rcases State.forward_cases hs with ⟨hkept, _⟩ | ⟨out, _, _, rfl⟩
    · rw [hbefore] at hkept
      cases hkept
    · rw [State.frames_complete, hbefore]
  refine ⟨fun t ht c hc => ?_, ?_⟩
  · rw [State.frameCore, hframes] at hc
    by_cases hid : t = m.sender
    · rw [hid, AList.lookup_erase] at hc
      cases hc
    · rw [AList.lookup_erase_ne hid] at hc
      exact h.others ht hc
  · rw [State.frameCore, hframes, AList.lookup_erase_ne hsender]
    rfl

/-- The bridge asks for a geometry: kept back while there is a title bar, and passed on while there is
none. -/
theorem asked (h : W.Kept s) {o : Obj} {desc : MessageDesc} {up : Option ObjectId} {m : Request}
    {answer : Answer} (hiface : o.iface.name = "xdg_surface") (hname : desc.name = "set_window_geometry")
    (hs : s.forward E o desc up m answer = .ok s') :
    (∀ t, t ≠ W.toplevel → ∀ c, s'.frameCore t = some c → c.surface ≠ W.surface) ∧
      (m.sender ≠ W.xdgSurface → s'.frameCore W.toplevel = s.frameCore W.toplevel) ∧
      (m.sender = W.xdgSurface → s'.frameCore W.toplevel = (s.frameCore W.toplevel).map fun c =>
        { c with asked := some (int m.args 0, int m.args 1, int m.args 2, int m.args 3) }) := by
  have hbefore := s.beforeRequest_geometry (E := E) m.sender m.args
  rw [← hiface, ← hname] at hbefore
  have htoplevel : s.toplevelOf W.xdgSurface = some W.toplevel := State.toplevelOf_of_link h.linked.xdgSurface
  cases hframed : s.framedToplevel m.sender with
  -- There is no frame, and the request goes out as it came.
  | none =>
      rw [hframed] at hbefore
      have hsame : s.SameFrames s' := by
        rcases State.forward_cases hs with ⟨_, rfl⟩ | ⟨out, _, _, rfl⟩
        · rw [hbefore]
          exact State.SameFrames.refl s
        · rw [hbefore]
          exact State.SameFrames.of_frames (State.frames_complete _ _ _ _ _ _ _ _)
      refine ⟨fun t ht c hc => ?_, fun _ => hsame _, fun hsender => ?_⟩
      · rw [hsame] at hc
        exact h.others ht hc
      · -- There is no title bar.
        unfold State.framedToplevel at hframed
        rw [hsender, htoplevel, Option.filter_eq_none_iff] at hframed
        have hnone : s.frameCore W.toplevel = none := by
          rw [State.frameCore, Option.map_eq_none_iff]
          simpa using hframed W.toplevel rfl
        rw [hsame, hnone]
        rfl
  -- The geometry is kept by the frame.
  | some t =>
      rw [hframed] at hbefore
      unfold State.framedToplevel at hframed
      obtain ⟨hof, _⟩ := Option.filter_eq_some_iff.mp hframed
      have hs' : s' = s.adjustFrame t fun f =>
          { f with bridgeGeometry := some (int m.args 0, int m.args 1, int m.args 2, int m.args 3) } := by
        rcases State.forward_cases hs with ⟨_, rfl⟩ | ⟨out, hgoes, _, _⟩
        · rw [hbefore]
        · rw [hbefore] at hgoes
          cases hgoes
      have hcore : ∀ t', s'.frameCore t' = if t' = t then (s.frameCore t').map fun c =>
          { c with asked := some (int m.args 0, int m.args 1, int m.args 2, int m.args 3) } else s.frameCore t' := by
        intro t'
        rw [hs', State.frameCore_adjustFrame]
        split
        · rw [State.frameCore, Option.map_map]
          rfl
        · rfl
      refine ⟨fun t' ht' c hc => ?_, fun hne => ?_, fun hsender => ?_⟩
      · rw [hcore] at hc
        split at hc
        · obtain ⟨c', hc', rfl⟩ := Option.map_eq_some_iff.mp hc
          have hother := h.others ht' hc'
          exact hother
        · exact h.others ht' hc
      · rw [hcore, if_neg]
        rintro rfl
        obtain ⟨surface, hlink⟩ := State.toplevelOf_eq_some hof
        exact hne (h.linked.ofToplevel _ _ hlink)
      · rw [hsender, htoplevel] at hof
        rw [hcore, if_pos (Option.some.inj hof)]

/-- A surface commits. -/
theorem committed (hdraws : E.drawing = L.drawing) (h : W.Kept s) {o : Obj} {desc : MessageDesc}
    {up : Option ObjectId} {m : Request} {answer : Answer} (hiface : o.iface.name = "wl_surface")
    (hname : desc.name = "commit") (hs : s.forward E o desc up m answer = .ok s') :
    (∀ t, t ≠ W.toplevel → ∀ c, s'.frameCore t = some c → c.surface ≠ W.surface) ∧
      (m.sender ≠ W.surface → s'.frameCore W.toplevel = s.frameCore W.toplevel) ∧
      (m.sender = W.surface → s'.frames.lookup W.toplevel = (s.frames.lookup W.toplevel).map fun f =>
        { f with drawn := (f.drawn.commit L (s.commitSurface W.surface).2 f.bridgeGeometry).1 }) := by
  have hbefore := s.beforeRequest_commit (E := E) m.sender m.args
  rw [← hiface, ← hname] at hbefore
  have hsurface : (s.commitSurface m.sender).1.frames = s.frames := by
    unfold State.commitSurface
    split <;> rfl
  have hframes : s'.frames = (s.beforeRequest E m.sender o.iface.name desc.name m.args).1.frames := by
    rcases State.forward_cases hs with ⟨_, rfl⟩ | ⟨out, _, _, rfl⟩
    · rfl
    · rw [State.frames_complete]
  cases hby : (s.commitSurface m.sender).1.framedBy m.sender with
  -- No frame is around the surface.
  | none =>
      rw [hbefore, hby] at hframes
      dsimp only at hframes
      rw [hsurface] at hframes
      refine ⟨fun t ht c hc => ?_, fun _ => ?_, fun hsender => ?_⟩
      · rw [State.frameCore, hframes] at hc
        exact h.others ht hc
      · rw [State.frameCore, hframes]
        rfl
      · rw [hsender] at hby hsurface
        rw [h.framedBy hsurface, Option.map_eq_none_iff] at hby
        rw [hframes, hby]
        rfl
  | some t =>
      rw [hbefore, hby] at hframes
      dsimp only at hframes
      obtain ⟨f, hf, hof⟩ := State.framedBy_eq_some hby
      rw [hsurface] at hf
      have hlookup : ∀ t', s'.frames.lookup t' = if t' = t then (s.frames.lookup t').map fun f =>
          { f with drawn := (f.drawn.commit L (s.commitSurface m.sender).2 f.bridgeGeometry).1 }
          else s.frames.lookup t' := by
        intro t'
        rw [hframes]
        unfold State.adjustFrame
        rw [Table.lookup_adjust, hsurface, hdraws]
        rfl
      refine ⟨fun t' ht' c hc => ?_, fun hne => ?_, fun hsender => ?_⟩
      · rw [State.frameCore, hlookup] at hc
        split at hc
        · rw [Option.map_map] at hc
          obtain ⟨f', hf', rfl⟩ := Option.map_eq_some_iff.mp hc
          have hcore : s.frameCore t' = some f'.core := by rw [State.frameCore, hf']; rfl
          have hother := h.others ht' hcore
          exact hother
        · exact h.others ht' hc
      · rw [State.frameCore, hlookup, if_neg]
        · rfl
        · rintro rfl
          have hcore : s.frameCore W.toplevel = some f.core := by rw [State.frameCore, hf]; rfl
          exact hne (hof.symm.trans ((h.frames _ _ hcore).mpr rfl))
      · rw [hsender] at hby hsurface
        rw [h.framedBy hsurface] at hby
        obtain ⟨_, _, rfl⟩ := Option.map_eq_some_iff.mp hby
        rw [hlookup, if_pos rfl, hsender]

end Win.Kept

/-- What a request does to the title bar of a window. -/
def Win.Effect (W : Win) (L : Library A) (s : State (Window A)) (m : Request) (answer : Answer)
    (s' : State (Window A)) : Prop :=
  match W.touch s m with
  | none => s'.frameCore W.toplevel = s.frameCore W.toplevel
  | some .frames => s'.frameCore W.toplevel = s.frameCore W.toplevel ∨
      answer.framed ∧ s.frameCore W.toplevel = none ∧
        s'.frameCore W.toplevel = some { surface := W.surface, asked := none, content := none, set := none }
  | some .unframes => s'.frameCore W.toplevel = none
  | some (.asks geometry) =>
      s'.frameCore W.toplevel = (s.frameCore W.toplevel).map fun c => { c with asked := some geometry }
  | some .commits => s'.frames.lookup W.toplevel = (s.frames.lookup W.toplevel).map fun f =>
      { f with drawn := (f.drawn.commit L (s.commitSurface W.surface).2 f.bridgeGeometry).1 }

namespace Win.Kept

variable {W : Win} {s s' : State (Window A)}

private theorem touch_decoration {m : Request} {o : Obj} (ho : s.obj m.sender = some o) {toplevel : Ref}
    (hkind : o.kind = .decoration toplevel) :
    W.touch s m = if toplevel.id = W.toplevel then some (decorationTouch m) else none := by
  unfold Win.touch
  rw [ho]
  dsimp only
  rw [hkind]

private theorem touch_asks {m : Request} {o : Obj} {desc : MessageDesc} (ho : s.obj m.sender = some o)
    (hdesc : o.iface.requests[m.opcode]? = some desc) {up : Option ObjectId} (hkind : o.kind = .upstream up)
    (hiface : o.iface.name = "xdg_surface") (hname : desc.name = "set_window_geometry") :
    W.touch s m = if m.sender = W.xdgSurface then (geometryArgs m.args).map .asks else none := by
  unfold Win.touch
  rw [ho]
  dsimp only
  rw [hkind, hdesc, Option.map_some, hiface, hname]
  rfl

private theorem touch_commits {m : Request} {o : Obj} {desc : MessageDesc} (ho : s.obj m.sender = some o)
    (hdesc : o.iface.requests[m.opcode]? = some desc) {up : Option ObjectId} (hkind : o.kind = .upstream up)
    (hiface : o.iface.name = "wl_surface") (hname : desc.name = "commit") :
    W.touch s m = if m.sender = W.surface then some .commits else none := by
  unfold Win.touch
  rw [ho]
  dsimp only
  rw [hkind, hdesc, Option.map_some, hiface, hname]
  rfl

/-- Other requests. -/
theorem touch_eq_none {m : Request} {o : Obj} {desc : MessageDesc} (ho : s.obj m.sender = some o)
    (hdesc : o.iface.requests[m.opcode]? = some desc) (hkind : ∀ toplevel, o.kind ≠ .decoration toplevel)
    (hasks : ¬(o.iface.name = "xdg_surface" ∧ desc.name = "set_window_geometry"))
    (hcommits : ¬(o.iface.name = "wl_surface" ∧ desc.name = "commit")) : W.touch s m = none := by
  unfold Win.touch
  rw [ho]
  dsimp only
  rw [hdesc, Option.map_some]
  split
  · rename_i hk
    exact absurd hk (hkind _)
  · rename_i _ hi hn
    exact absurd ⟨hi, Option.some.inj hn⟩ hasks
  · rename_i _ hi hn
    exact absurd ⟨hi, Option.some.inj hn⟩ hcommits
  · rfl

/-- What a request does to the title bars of this window and of others. -/
theorem effect (hdraws : E.drawing = L.drawing) (h : W.Kept s) {m : Request} {answer : Answer}
    (halone : W.Alone s (.request m answer)) (hlives : (s'.obj W.toplevel).isSome)
    (hs : s.request E m answer = .ok s') :
    (∀ t, t ≠ W.toplevel → ∀ c, s'.frameCore t = some c → c.surface ≠ W.surface) ∧ W.Effect L s m answer s' := by
  obtain ⟨o, desc, ho, hdesc, htyped, hcases⟩ := State.frames_cases hdraws hs
  obtain ⟨_, _, _, hsignature, _, hdestructor⟩ := halone o ho desc hdesc
  unfold Win.Effect
  rcases hcases with ⟨toplevel, hkind, hs⟩ | ⟨up, hkind, hmem, hs⟩ | ⟨hkind, hother, hsame⟩
  · -- A decoration
    obtain ⟨hothers, hne, hunframed, hframed⟩ := h.decoration hdraws hs
    refine ⟨hothers, ?_⟩
    rw [touch_decoration ho hkind]
    by_cases htop : toplevel.id = W.toplevel
    · rw [if_pos htop]
      unfold State.decorationRequest at hs
      split at hs
      · rename_i hop hargs
        have htouch : decorationTouch m = .unframes := by
          rw [decorationTouch, hop, hargs]
          rfl
        rw [htouch]
        exact hunframed (.inl (by rw [hop, hargs])) htop
      · rename_i mode hop hargs
        have htouch : decorationTouch m = if mode = serverSide then .frames else .unframes := by
          rw [decorationTouch, hop, hargs]
          rfl
        rw [htouch]
        by_cases hmode : mode = serverSide
        · rw [if_pos hmode]
          exact hframed (.inr (by rw [hop, hargs, hmode])) htop
        · rw [if_neg hmode]
          exact hunframed (.inr ⟨mode, by rw [hop, hargs], hmode⟩) htop
      · rename_i hop hargs
        have htouch : decorationTouch m = .frames := by
          rw [decorationTouch, hop, hargs]
          rfl
        rw [htouch]
        exact hframed (.inl (by rw [hop, hargs])) htop
      · cases hs
    -- It is another window's.
    · rw [if_neg htop]
      exact hne htop
  · simp only [State.windowRequests, List.mem_cons, Prod.mk.injEq, List.not_mem_nil, or_false] at hmem
    rcases hmem with ⟨hi, hn⟩ | ⟨hi, hn⟩ | ⟨hi, hn⟩
    · -- A commit
      obtain ⟨hothers, hne, hsurface⟩ := h.committed hdraws hi hn hs
      refine ⟨hothers, ?_⟩
      rw [touch_commits ho hdesc hkind hi hn]
      by_cases hsender : m.sender = W.surface
      · rw [if_pos hsender]
        exact hsurface hsender
      · rw [if_neg hsender]
        exact hne hsender
    · -- A geometry
      obtain ⟨hothers, hne, hsame⟩ := h.asked hi hn hs
      refine ⟨hothers, ?_⟩
      rw [touch_asks ho hdesc hkind hi hn]
      by_cases hsender : m.sender = W.xdgSurface
      · rw [hsignature hi hn] at htyped
        obtain ⟨vs, hlength, hargs⟩ := State.wellTyped_ints (n := 4) htyped
        obtain ⟨x, y, width, height, rfl⟩ : ∃ x y width height, vs = [x, y, width, height] := by
          match vs, hlength with
          | [x, y, width, height], _ => exact ⟨x, y, width, height, rfl⟩
        have hasked := hsame hsender
        rw [hargs] at hasked
        rw [if_pos hsender, hargs]
        exact hasked
      · rw [if_neg hsender]
        exact hne hsender
    · -- The end of a toplevel
      obtain ⟨hothers, hsame⟩ := h.destroyed hi hn (hdestructor hi hn) hlives hs
      refine ⟨hothers, ?_⟩
      rw [touch_eq_none ho hdesc (fun _ hk => by cases hkind.symm.trans hk)
        (fun hboth => absurd (hi.symm.trans hboth.1) (by decide))
        fun hboth => absurd (hi.symm.trans hboth.1) (by decide)]
      exact hsame
  · refine ⟨fun t ht c hc => ?_, ?_⟩
    · rw [hsame] at hc
      exact h.others ht hc
    · -- A request on one of the window's own objects is forwarded.
      have hnone : W.touch s m = none := by
        unfold Win.touch
        rw [ho]
        dsimp only
        rw [hdesc, Option.map_some]
        split
        · rename_i hk
          exact absurd hk (hkind _)
        · rename_i hk hi hn
          refine absurd ?_ (hother _ hk)
          rw [hi, Option.some.inj hn]
          decide
        · rename_i hk hi hn
          refine absurd ?_ (hother _ hk)
          rw [hi, Option.some.inj hn]
          decide
        · rfl
      rw [hnone]
      exact hsame _

end Win.Kept

/-! ## Section 5: Windows That Live On -/

namespace State

variable {F : Type} {E : Setting F} {s s' : State F}

/-- An object that is there before and after a step is the same. -/
theorem core_of_step (hkept : s.IdsKept) {a : Action} (hs : step E s a = some s') {id : Id}
    (hsome : (s.obj id).isSome) (hlives : (s'.obj id).isSome) :
    (s'.obj id).map Obj.core = (s.obj id).map Obj.core := by
  -- Only the object that ends is another afterwards.
  have hends : ∀ {j : Id} {t u : State F}, Ends j t u → (u.obj id).isSome → u.obj id = t.obj id := by
    intro j t u he hu
    cases he with
    | nothing hs => rw [hs]
    | gone _ hs =>
        rw [hs, obj_deleteId, obj_destroy] at hu ⊢
        split at hu
        · cases hu
        · rename_i hne
          rw [if_neg hne]
  cases a with
  | request m answer =>
      obtain ⟨t, u, v, hbefore, hcreates, hafter, he⟩ := (requested_of_step hs).parts
      have hcreated : u.obj id = t.obj id := by
        cases hcreates with
        | nothing hs => rw [hs]
        | new id' iface version kind role data _ hnew _ _ _ hs =>
            rw [hs]
            show (t.create .bridge id' iface version kind role).obj id = _
            rw [obj_create, if_neg]
            rintro rfl
            rw [← hbefore.obj_isSome, (checkNewId_eq_ok.mp hnew).2.2] at hsome
            cases hsome
      rw [hends he hlives, hafter.core, hcreated, hbefore.core]
  | event e =>
      cases hs
      rcases s.event_cases (E := E) e with ⟨_, hs⟩ | ⟨bridge, o, desc, ht, hevent⟩
      · rw [hs]
      have hreceived : (s.receive E desc o.version e.alive e.args).1.obj id = s.obj id := by
        obtain ⟨o', ho'⟩ := Option.isSome_iff_exists.mp hsome
        rw [ho']
        exact (hkept.receive desc o.version e.alive e.args).2 id o' ho'
      rcases hevent with ⟨_, hs⟩ | ⟨input, _, hs⟩
      · rw [hs, hreceived]
      · have hbridge := isSome_of_upstream (hkept.receive_upstream (E := E) ht)
        have hd := delivered_deliver (E := E) hbridge o.iface desc e input
        rw [← hs] at hd
        obtain ⟨data, t, he, hs'⟩ := hd.parts
        have ht' : t.obj id = (State.event E s e).obj id := by rw [hs']; rfl
        have hnoted : ∀ (passes : Bool) (u : State F) entry,
            ((if passes then u.note entry else u).obj id) = u.obj id := by
          intro passes u entry
          split <;> rfl
        rw [← ht'] at hlives ⊢
        rw [hends he hlives, hnoted, hd.quiet.core, hreceived]
  | setOutput global geometry =>
      cases hs
      cases geometry <;> rfl
  | close toplevel =>
      cases hs
      exact ((s.still_close toplevel).toQuiet).core id

end State

namespace Win.Kept

variable {W : Win} {s s' : State (Window A)}

theorem lives {a : Action} (hlives : W.Lives E s a) (hs : step E s a = some s') :
    (s'.obj W.surface).isSome ∧ (s'.obj W.xdgSurface).isSome ∧ (s'.obj W.toplevel).isSome :=
  ⟨hlives s' hs _ (by simp), hlives s' hs _ (by simp), hlives s' hs _ (by simp)⟩

/-- What a step does to the title bars of this window and of others, but for a request. -/
theorem sameFrames (hdraws : E.drawing = L.drawing) {a : Action} (hrequest : ∀ m answer, a ≠ .request m answer)
    (hs : step E s a = some s') : s.SameFrames s' := by
  cases a with
  | request m answer => exact absurd rfl (hrequest m answer)
  | event e =>
      cases hs
      exact s.sameFrames_event hdraws e
  | setOutput global geometry =>
      cases hs
      cases geometry <;> exact State.SameFrames.refl s
  | close toplevel =>
      cases hs
      apply State.SameFrames.of_frames
      show (s.close toplevel).frames = s.frames
      unfold State.close
      split <;> rfl

theorem step (hdraws : E.drawing = L.drawing) (h : W.Kept s) (hkept : s.IdsKept) {a : Action}
    (halone : W.Alone s a) (hlives : W.Lives E s a) (hs : step E s a = some s') : W.Kept s' := by
  obtain ⟨hsurface, hxdgSurface, htoplevel⟩ := lives hlives hs
  have hforwarded : ∀ {id : Id} {name : String}, (s'.obj id).isSome →
      (∃ o up, s.obj id = some o ∧ o.iface.name = name ∧ o.kind = .upstream (some up)) →
        ∃ o up, s'.obj id = some o ∧ o.iface.name = name ∧ o.kind = .upstream (some up) := by
    rintro id name hlives ⟨o, up, ho, hiface, hkind⟩
    obtain ⟨o', ho'⟩ := Option.isSome_iff_exists.mp hlives
    have hsome : (s.obj id).isSome := by
      rw [ho]
      rfl
    have hcore := State.core_of_step hkept hs hsome hlives
    rw [ho, ho'] at hcore
    have hsame : o'.core = o.core := Option.some.inj hcore
    have hiface' : o'.iface = o.iface := congrArg (fun c => c.1) hsame
    have hkind' : o'.kind = o.kind := congrArg (fun c => c.2.2.1) hsame
    exact ⟨o', up, ho', hiface' ▸ hiface, hkind'.trans hkind⟩
  have hids : ∀ id, id = W.xdgSurface ∨ id = W.toplevel → (s'.obj id).isSome := by
    rintro id (rfl | rfl)
    · exact hxdgSurface
    · exact htoplevel
  refine ⟨?_, hforwarded hsurface h.surface, hforwarded hxdgSurface h.xdgSurface, htoplevel, ?_⟩
  · cases a with
    | request m answer => exact h.linked.request halone (toOption_eq_some.mp hs) hids
    | event e =>
        cases hs
        exact h.linked.event hkept halone hids
    | setOutput global geometry =>
        cases hs
        cases geometry <;> exact h.linked.of_same (State.SameLinks.of_objects rfl)
    | close toplevel =>
        cases hs
        exact h.linked.of_same (State.SameLinks.of_alters (s.alters_close toplevel) (by simp) (by simp))
  · cases a with
    | request m answer =>
        have hrequest := toOption_eq_some.mp hs
        obtain ⟨hothers, heffect⟩ := h.effect hdraws halone htoplevel hrequest
        intro t c hc
        by_cases ht : t = W.toplevel
        · subst ht
          refine iff_of_true ?_ rfl
          unfold Win.Effect at heffect
          have hown : ∀ c', s.frameCore W.toplevel = some c' → c'.surface = W.surface := fun c' hc' =>
            (h.frames _ _ hc').mpr rfl
          split at heffect
          · rw [heffect] at hc
            exact hown c hc
          · rcases heffect with hsame | ⟨_, _, hnew⟩
            · rw [hsame] at hc
              exact hown c hc
            · rw [hnew] at hc
              cases hc
              rfl
          · rw [heffect] at hc
            cases hc
          · rw [heffect] at hc
            obtain ⟨c', hc', rfl⟩ := Option.map_eq_some_iff.mp hc
            exact hown c' hc'
          · rw [State.frameCore, heffect, Option.map_map] at hc
            obtain ⟨f, hf, rfl⟩ := Option.map_eq_some_iff.mp hc
            have hcore : s.frameCore W.toplevel = some f.core := by rw [State.frameCore, hf]; rfl
            exact hown f.core hcore
        · exact iff_of_false (hothers t ht c hc) ht
    | event _ | setOutput _ _ | close _ =>
        have hsame := sameFrames hdraws (fun _ _ hsame => by cases hsame) hs
        intro t c hc
        rw [hsame] at hc
        exact h.frames t c hc

private theorem touch_eq_asks {m : Request} {geometry : Geometry} (h : W.touch s m = some (.asks geometry)) :
    ∃ o up desc, s.obj m.sender = some o ∧ o.iface.requests[m.opcode]? = some desc ∧ o.kind = .upstream up ∧
      o.iface.name = "xdg_surface" ∧ desc.name = "set_window_geometry" ∧ m.sender = W.xdgSurface ∧
        geometryArgs m.args = some geometry := by
  unfold Win.touch at h
  split at h
  · cases h
  rename_i o ho
  split at h
  · split at h
    · have htouch := Option.some.inj h
      unfold decorationTouch at htouch
      split at htouch
      · cases htouch
      · split at htouch <;> cases htouch
      · cases htouch
    · cases h
  · rename_i up hkind hiface hname
    obtain ⟨desc, hdesc, hname⟩ := Option.map_eq_some_iff.mp hname
    split at h
    · rename_i hsender
      obtain ⟨geometry', hargs, hsame⟩ := Option.map_eq_some_iff.mp h
      cases hsame
      exact ⟨o, up, desc, ho, hdesc, hkind, hiface, hname, hsender, hargs⟩
    · cases h
  · split at h <;> cases h
  · cases h

private theorem touch_eq_commits {m : Request} (h : W.touch s m = some .commits) :
    ∃ o up desc, s.obj m.sender = some o ∧ o.iface.requests[m.opcode]? = some desc ∧ o.kind = .upstream up ∧
      o.iface.name = "wl_surface" ∧ desc.name = "commit" ∧ m.sender = W.surface := by
  unfold Win.touch at h
  split at h
  · cases h
  rename_i o ho
  split at h
  · split at h
    · have htouch := Option.some.inj h
      unfold decorationTouch at htouch
      split at htouch
      · cases htouch
      · split at htouch <;> cases htouch
      · cases htouch
    · cases h
  · split at h
    · obtain ⟨_, _, hsame⟩ := Option.map_eq_some_iff.mp h
      cases hsame
    · cases h
  · rename_i up hkind hiface hname
    obtain ⟨desc, hdesc, hname⟩ := Option.map_eq_some_iff.mp hname
    split at h
    · rename_i hsender
      exact ⟨o, up, desc, ho, hdesc, hkind, hiface, hname, hsender⟩
    · cases h
  · cases h

private theorem geometryArgs_eq_some {ρ : Type} {args : List (Arg ρ)} {geometry : Geometry}
    (h : geometryArgs args = some geometry) :
    args = [.int geometry.1, .int geometry.2.1, .int geometry.2.2.1, .int geometry.2.2.2] := by
  unfold geometryArgs at h
  split at h
  · cases h
    rfl
  · cases h

/-- A geometry that the bridge asks for is passed on while there is no title bar. -/
theorem passes_asks (h : W.Kept s) {m : Request} {answer : Answer} {geometry : Geometry}
    (htouch : W.touch s m = some (.asks geometry)) (halone : W.Alone s (.request m answer))
    (hs : Psbox.Decorations.step E s (.request m answer) = some s') :
    s.passes E (.request m answer) "set_window_geometry" = (s.frameCore W.toplevel).isNone := by
  obtain ⟨o, up, desc, ho, hdesc, hkind, hiface, hname, hsender, hargs⟩ := touch_eq_asks htouch
  obtain ⟨_, _, hsent, hsignature, _⟩ := halone o ho desc hdesc
  obtain ⟨o', up', ho', _, hkind'⟩ := h.xdgSurface
  rw [← hsender, ho] at ho'
  cases ho'
  cases hkind.symm.trans hkind'
  obtain ⟨_, hforward⟩ := State.forward_of_request ho hdesc hkind (by rw [hiface]; decide) (toOption_eq_some.mp hs)
  have htoplevel : s.toplevelOf m.sender = some W.toplevel :=
    hsender ▸ State.toplevelOf_of_link h.linked.xdgSurface
  have hbefore := s.beforeRequest_geometry (E := E) m.sender m.args
  rw [← hiface, ← hname] at hbefore
  have hnone : (s.frameCore W.toplevel).isNone = (s.framedToplevel m.sender).isNone := by
    unfold State.framedToplevel State.frameCore
    rw [htoplevel]
    cases hframe : s.frames.lookup W.toplevel with
    | none => simp [Option.filter, hframe]
    | some f => simp [Option.filter, hframe]
  rw [hnone]
  cases hframed : s.framedToplevel m.sender with
  -- The geometry goes to the frame instead.
  | some t =>
      rw [hframed] at hbefore
      have hlog : s'.log = s.log ++ [] := by
        rw [List.append_nil]
        rcases State.forward_cases hforward with ⟨_, rfl⟩ | ⟨_, hgoes, _, _⟩
        · rw [hbefore]
          rfl
        · rw [hbefore] at hgoes
          cases hgoes
      rw [State.passes_of_log hs hlog]
      rfl
  | none =>
      rw [hframed] at hbefore
      have htranslated : s.translate o.iface.name desc m.args desc.signature desc.argInterfaces =
          .ok { args := [.int geometry.1, .int geometry.2.1, .int geometry.2.2.1, .int geometry.2.2.2] } := by
        rw [hsignature hiface hname, geometryArgs_eq_some hargs]
        rfl
      have hnamed := State.passes_of_forward hs (hsent (.inr hsender)) hbefore rfl (by rw [hiface, hname]; rfl)
        htranslated hforward
      rw [hname] at hnamed
      exact hnamed

/-- A commit is passed on. -/
theorem passes_commits (h : W.Kept s) {m : Request} {answer : Answer} (htouch : W.touch s m = some .commits)
    (halone : W.Alone s (.request m answer))
    (hs : Psbox.Decorations.step E s (.request m answer) = some s') :
    s.passes E (.request m answer) "commit" = true := by
  obtain ⟨o, up, desc, ho, hdesc, hkind, hiface, hname, hsender⟩ := touch_eq_commits htouch
  obtain ⟨_, _, hsent, _, hsignature, _⟩ := halone o ho desc hdesc
  obtain ⟨o', up', ho', _, hkind'⟩ := h.surface
  rw [← hsender, ho] at ho'
  cases ho'
  cases hkind.symm.trans hkind'
  obtain ⟨htyped, hforward⟩ := State.forward_of_request ho hdesc hkind (by rw [hiface]; decide)
    (toOption_eq_some.mp hs)
  have hargs : m.args = [] := by
    rw [hsignature hiface hname] at htyped
    cases hargs : m.args with
    | nil => rfl
    | cons a args =>
        rw [hargs] at htyped
        cases htyped
  have hbefore : ∃ t : State (Window A), t.log = s.log ∧
      s.beforeRequest E m.sender o.iface.name desc.name m.args = (t, m.args, true) := by
    have hlog : (s.commitSurface m.sender).1.log = s.log := by
      unfold State.commitSurface
      split <;> rfl
    rw [hiface, hname, State.beforeRequest_commit]
    split
    · refine ⟨_, ?_, rfl⟩
      exact hlog
    · refine ⟨_, ?_, rfl⟩
      exact hlog
  obtain ⟨t, hlog, hbefore⟩ := hbefore
  have htranslated : t.translate o.iface.name desc m.args desc.signature desc.argInterfaces =
      .ok { args := [] } := by
    rw [hsignature hiface hname, hargs]
    rfl
  have hnamed := State.passes_of_forward hs (hsent (.inl hsender)) hbefore hlog (by rw [hiface, hname]; rfl)
    htranslated hforward
  rw [hname] at hnamed
  exact hnamed

/-- What the title bar sets at a commit. -/
theorem drawn_eq (h : W.Kept s) : W.drawn L s = (s.frames.lookup W.toplevel).bind fun f =>
    (f.drawn.commit L (s.commitSurface W.surface).2 f.bridgeGeometry).2 := by
  have hframes : (s.commitSurface W.surface).1.frames = s.frames := by
    unfold State.commitSurface
    split <;> rfl
  unfold Win.drawn
  dsimp only
  rw [h.framedBy hframes, hframes]
  cases hframe : s.frames.lookup W.toplevel with
  | none => rfl
  | some f =>
      rw [Option.map_some]
      dsimp only
      rw [if_pos rfl, hframe]

end Win.Kept

/-- The size that a commit of the window finds is the one of its content. -/
theorem State.Tracks.contentSize {W : Win} {s : State (Window A)} {c : Contents} (h : s.Tracks c) {m : Request}
    {answer : Answer} (htouch : W.touch s m = some .commits) (hok : SizeOk (s, c) (.request m answer)) :
    (s.commitSurface W.surface).2 = W.contentSize (s, c) := by
  obtain ⟨o, up, desc, ho, hdesc, hkind, hiface, hname, hsender⟩ := Win.Kept.touch_eq_commits htouch
  have hcommit : .commit o.born ∈ s.sizeOps (.request m answer) := by
    unfold State.sizeOps
    simp only [ho, hkind, hdesc]
    apply List.mem_append_left
    unfold State.changeOp
    rw [hiface, hname]
    exact List.mem_singleton.mpr rfl
  unfold Win.contentSize
  rw [← hsender, h.commitSurface hcommit hok, ho, Option.bind_some]

/-- What the compositor will have is the bridge's own geometry, or the whole surface as it was left
behind. -/
def Shown.Even (g : Shown) : Prop :=
  g.latest = g.own ∨ g.own = none ∧ ∃ left, g.left = some left ∧ g.latest = some (0, 0, left.1, left.2)

/-- What is shown of a window follows it. -/
structure Win.Follows (W : Win) (s : State (Window A)) (g : Shown) : Prop where
  limits : ∀ geometry ∈ g.own, InLimits geometry.2.2.1 geometry.2.2.2
  bare : s.frameCore W.toplevel = none → g.Even
  framed : ∀ c, s.frameCore W.toplevel = some c → c.asked = g.own ∧
    (∀ size ∈ c.content, (size.1 : Nat) ≤ maxSize ∧ (size.2 : Nat) ≤ maxSize) ∧
      (∀ geometry ∈ c.set, g.latest = some geometry ∧ c.content.isSome) ∧
        (c.set = none → g.own = none → g.Even)

namespace Win.Follows

variable {W : Win} {s s' : State (Window A)} {g : Shown}

theorem same (h : W.Follows s g) (hsame : s'.frameCore W.toplevel = s.frameCore W.toplevel) : W.Follows s' g :=
  ⟨h.limits, fun hnone => h.bare (hsame ▸ hnone), fun c hc => h.framed c (hsame ▸ hc)⟩

/-- A title bar is added, to a window that no geometry was asked for. -/
theorem frames (h : W.Follows s g) (hnone : s.frameCore W.toplevel = none) (hown : g.own = none)
    (hnew : s'.frameCore W.toplevel = some { surface := W.surface, asked := none, content := none, set := none }) :
    W.Follows s' g := by
  refine ⟨h.limits, fun hbare => ?_, fun c hc => ?_⟩
  · cases hbare.symm.trans hnew
  · cases hnew.symm.trans hc
    exact ⟨hown.symm, by simp, by simp, fun _ _ => h.bare hnone⟩

/-- A title bar goes, and what it kept back is set. -/
theorem unframes (h : W.Follows s g) {f : Frame (Window A)} (hframe : s.frames.lookup W.toplevel = some f)
    (hset : f.bridgeGeometry.isSome → f.drawn.geometry.isSome) (hgone : s'.frameCore W.toplevel = none) :
    W.Follows s' { g.set (f.drawn.remove f.bridgeGeometry) with
      left := if (f.drawn.remove f.bridgeGeometry).isSome ∧ f.bridgeGeometry = none then
          f.drawn.content.map fun size => ((size.1 : Int), (size.2 : Int))
        else g.left } := by
  have hcore : s.frameCore W.toplevel = some f.core := by rw [State.frameCore, hframe]; rfl
  obtain ⟨hasked, hcontent, hlatest, hempty⟩ := h.framed _ hcore
  change f.bridgeGeometry = g.own at hasked
  refine ⟨h.limits, fun _ => ?_, fun c hc => ?_⟩
  · cases hgeometry : f.drawn.geometry with
    | none =>
        -- It set nothing.
        have hremove : f.drawn.remove f.bridgeGeometry = none := by
          unfold Window.remove
          rw [hgeometry]
          rfl
        have hown : g.own = none := by
          rw [← hasked]
          cases hbridge : f.bridgeGeometry with
          | none => rfl
          | some geometry =>
              rw [hbridge, hgeometry] at hset
              cases hset rfl
        rw [hremove, if_neg fun hboth => absurd hboth.1 (by simp)]
        exact hempty hgeometry hown
    | some geometry =>
        obtain ⟨_, hsome⟩ := hlatest geometry hgeometry
        obtain ⟨size, hsize⟩ := Option.isSome_iff_exists.mp hsome
        change f.drawn.content = some size at hsize
        have hremove : f.drawn.remove f.bridgeGeometry = some (Window.wanted f.bridgeGeometry size) := by
          unfold Window.remove
          rw [hgeometry, hsize]
          rfl
        rw [hremove, hsize]
        cases hbridge : f.bridgeGeometry with
        | some own =>
            refine .inl ?_
            rw [hbridge] at hasked
            show some own = g.own
            exact hasked
        | none =>
            obtain ⟨hwidth, hheight⟩ := hcontent size hsize
            refine .inr ⟨hasked.symm.trans hbridge, ((size.1 : Int), (size.2 : Int)), rfl, ?_⟩
            show some ((0 : Int), (0 : Int), asI32 size.1, asI32 size.2) = some (0, 0, (size.1 : Int), (size.2 : Int))
            rw [asI32_of_le hwidth, asI32_of_le hheight]
  · cases hgone.symm.trans hc

/-- The bridge asks for a geometry. -/
theorem asks (h : W.Follows s g) {geometry : Geometry} (hlimits : InLimits geometry.2.2.1 geometry.2.2.2)
    (hcore : s'.frameCore W.toplevel = (s.frameCore W.toplevel).map fun c => { c with asked := some geometry }) :
    W.Follows s' (if (s.frameCore W.toplevel).isNone then (g.ask geometry).set (some geometry)
      else g.ask geometry) := by
  have hown : ∀ geometry' ∈ some geometry, InLimits geometry'.2.2.1 geometry'.2.2.2 := by
    rintro geometry' hsame
    cases hsame
    exact hlimits
  cases hframe : s.frameCore W.toplevel with
  | none =>
      rw [hframe] at hcore
      refine ⟨hown, fun _ => .inl rfl, fun c hc => ?_⟩
      cases hcore.symm.trans hc
  | some c =>
      rw [hframe] at hcore
      obtain ⟨_, hcontent, hlatest, _⟩ := h.framed c hframe
      refine ⟨hown, fun hnone => ?_, fun c' hc' => ?_⟩
      · cases hcore.symm.trans hnone
      · cases hcore.symm.trans hc'
        exact ⟨rfl, hcontent, hlatest, fun _ hnone => by cases hnone⟩

/-- What the compositor has after a commit. -/
theorem current_commit (g : Shown) (sent : Option Geometry) :
    ((g.set sent).commit).current = sent.or g.latest ∧ ((g.set sent).commit).latest = sent.or g.latest := by
  have hcurrent : ((g.set sent).commit).current = sent.or g.latest := by
    show (sent.or g.pending).or g.current = sent.or (g.pending.or g.current)
    exact Option.or_assoc
  exact ⟨hcurrent, hcurrent⟩

/-- A commit of a window without a title bar. -/
theorem commits_bare (h : W.Follows s g) (hframe : s.frames.lookup W.toplevel = none)
    (hsame : s'.frameCore W.toplevel = s.frameCore W.toplevel) :
    W.Follows s' (g.set none).commit ∧ ∀ w h, (g.own = none → ∀ left ∈ g.left, left = (w, h)) →
      (g.set none).commit.current.getD (0, 0, w, h) = g.own.getD (0, 0, w, h) := by
  obtain ⟨hcurrent, hlatest⟩ := current_commit g none
  have hnone : s.frameCore W.toplevel = none := by rw [State.frameCore, hframe]; rfl
  have heven := h.bare hnone
  refine ⟨⟨h.limits, fun _ => ?_, fun c hc => ?_⟩, fun w h hleft => ?_⟩
  · rcases heven with heven | ⟨hown, left, hleft, heven⟩
    · exact .inl (hlatest.trans heven)
    · exact .inr ⟨hown, left, hleft, hlatest.trans heven⟩
  · cases (hsame.trans hnone).symm.trans hc
  · rw [hcurrent, Option.none_or]
    rcases heven with heven | ⟨hown, left, hsome, heven⟩
    · rw [heven]
    · obtain rfl := hleft hown left hsome
      rw [heven, hown]
      rfl

/-- A commit of a window with a title bar. -/
theorem commits_framed (h : W.Follows s g) {f : Frame (Window A)} (hframe : s.frames.lookup W.toplevel = some f)
    {size : Option (Int × Int)} (hsize : ∀ x ∈ size, InLimits x.1 x.2)
    (hdrawn : s'.frames.lookup W.toplevel =
      some { f with drawn := (f.drawn.commit L size f.bridgeGeometry).1 }) :
    W.Follows s' (g.set (f.drawn.commit L size f.bridgeGeometry).2).commit ∧ ∀ w h, size = some (w, h) →
      (g.set (f.drawn.commit L size f.bridgeGeometry).2).commit.current =
        some (L.extended (f.drawn.commit L size f.bridgeGeometry).1.inner (g.own.getD (0, 0, w, h))) := by
  have hcore : s.frameCore W.toplevel = some f.core := by rw [State.frameCore, hframe]; rfl
  have hcore' : s'.frameCore W.toplevel =
      some ({ f with drawn := (f.drawn.commit L size f.bridgeGeometry).1 } : Frame (Window A)).core := by
    rw [State.frameCore, hdrawn]
    rfl
  obtain ⟨hasked, hcontent, hset, hempty⟩ := h.framed _ hcore
  change f.bridgeGeometry = g.own at hasked
  obtain ⟨hcurrent, hlatest⟩ := current_commit g (f.drawn.commit L size f.bridgeGeometry).2
  cases hfollow : (f.drawn.follow L size).content with
  -- Without content nothing is set.
  | none =>
      -- It never had content, and sets nothing.
      obtain ⟨hnone, hgeometry, hsent⟩ := Window.commit_of_none f.bridgeGeometry hfollow
      have hunset : f.drawn.geometry = none := by
        cases hgeometry' : f.drawn.geometry with
        | none => rfl
        | some geometry =>
            obtain ⟨_, hsome⟩ := hset geometry hgeometry'
            rcases Window.content_follow (L := L) f.drawn size with hsame | ⟨_, _, _, _, _, _, _, hnew⟩
            · rw [hfollow] at hsame
              change f.drawn.content.isSome at hsome
              rw [← hsame] at hsome
              cases hsome
            · cases hfollow.symm.trans hnew
      rw [hsent, Option.none_or] at hlatest
      refine ⟨⟨h.limits, fun hbare => ?_, fun c hc => ?_⟩, fun w h hsome => ?_⟩
      · cases hcore'.symm.trans hbare
      · cases hcore'.symm.trans hc
        refine ⟨hasked, fun size hsome => ?_, fun geometry hsome => ?_, fun _ hown => ?_⟩
        · cases hnone.symm.trans hsome
        · cases (hgeometry.trans hunset).symm.trans hsome
        · rw [hsent]
          rcases hempty hunset hown with heven | ⟨_, left, hleft, heven⟩
          · exact .inl (hlatest.trans heven)
          · exact .inr ⟨hown, left, hleft, hlatest.trans heven⟩
      · subst hsome
        obtain ⟨width, height, hnew, _, _⟩ := Window.content_follow_of_limits (L := L) (w := f.drawn) (hsize _ rfl)
        cases hfollow.symm.trans hnew
  -- The frame is set around the content.
  | some content =>
      obtain ⟨hcontent', hgeometry, hsent⟩ := Window.commit_of_some f.bridgeGeometry hfollow
      have hnow : (f.drawn.commit L size f.bridgeGeometry).2.or g.latest =
          some (Window.framed L (f.drawn.commit L size f.bridgeGeometry).1.inner
            (Window.wanted f.bridgeGeometry content)) := by
        rcases hsent with hsent | ⟨hsent, hkeeps⟩
        · rw [hsent, hgeometry]
          rfl
        · rw [hsent, Option.none_or]
          exact (hset _ (hkeeps.trans hgeometry)).1
      refine ⟨⟨h.limits, fun hbare => ?_, fun c hc => ?_⟩, fun w h' hsome => ?_⟩
      · cases hcore'.symm.trans hbare
      · cases hcore'.symm.trans hc
        refine ⟨hasked, fun size' hsome => ?_, fun geometry hsome => ?_, fun hnone => ?_⟩
        · cases hcontent'.symm.trans hsome
          rcases Window.content_follow (L := L) f.drawn size with
            hsame | ⟨_, _, _, _, _, hwidth, hheight, hnew⟩
          · exact hcontent content (hsame.symm.trans hfollow)
          · cases hfollow.symm.trans hnew
            exact ⟨clampSize_le hwidth, clampSize_le hheight⟩
        · cases hgeometry.symm.trans hsome
          refine ⟨hlatest.trans hnow, ?_⟩
          show (f.drawn.commit L size f.bridgeGeometry).1.content.isSome
          rw [hcontent']
          rfl
        · cases hgeometry.symm.trans hnone
      · subst hsome
        obtain ⟨width, height, hnew, hw, hh⟩ :=
          Window.content_follow_of_limits (L := L) (w := f.drawn) (hsize _ rfl)
        cases hfollow.symm.trans hnew
        have hwithin := hsize _ rfl
        have hwanted : Window.wanted f.bridgeGeometry (width, height) = g.own.getD (0, 0, w, h') := by
          rw [hasked]
          unfold Window.wanted
          cases g.own with
          | some own => rw [Option.getD_some, Option.getD_some]
          | none =>
              obtain ⟨⟨_, hw'⟩, _, hh'⟩ := hwithin
              show ((0 : Int), (0 : Int), asI32 width, asI32 height) = (0, 0, w, h')
              rw [asI32_of_le (by unfold maxSize; omega), asI32_of_le (by unfold maxSize; omega), hw, hh]
        rw [hcurrent, hnow, hwanted, framed_of_limits]
        cases hown : g.own with
        | some own => exact h.limits own hown
        | none => exact hwithin

/-- A step keeps what is shown in line with the window, and a commit shows it right. -/
theorem step (hdraws : E.drawing = L.drawing) {c : Contents} (h : W.Follows s g) (hkept : W.Kept s)
    (htracks : s.Tracks c) {a : Action} (halone : W.Alone s a) (hlives : W.Lives E s a) (hok : SizeOk (s, c) a)
    (hsizes : W.SizesOk (s, c) a) (hlost : W.NothingLost (s, c) g a) (hs : Psbox.Decorations.step E s a = some s') :
    W.Follows s' (W.shows L E s a g) ∧ W.GeometryRight L (s, c) a s' (W.shows L E s a g) := by
  cases a with
  | event _ | setOutput _ _ | close _ =>
      have hsame := Win.Kept.sameFrames hdraws (fun _ _ hsame => by cases hsame) hs
      exact ⟨h.same (hsame _), fun _ _ hrequest => by cases hrequest⟩
  | request m answer =>
  obtain ⟨_, heffect⟩ := hkept.effect hdraws halone (Win.Kept.lives hlives hs).2.2 (toOption_eq_some.mp hs)
  have hisNone : (s.frames.lookup W.toplevel).isNone = (s.frameCore W.toplevel).isNone := by
    unfold State.frameCore
    cases s.frames.lookup W.toplevel <;> rfl
  have hother : W.touch s m ≠ some .commits → ∀ g', W.GeometryRight L (s, c) (.request m answer) s' g' := by
    intro hne g' m' answer' hsame htouch
    cases hsame
    exact absurd htouch hne
  unfold Win.Effect at heffect
  unfold Win.SizesOk at hsizes
  unfold Win.NothingLost at hlost
  unfold Win.shows
  dsimp only at hsizes hlost ⊢
  cases htouch : W.touch s m with
  -- A request that is none of the window's leaves it as it is.
  | none =>
      rw [htouch] at heffect
      exact ⟨h.same heffect, hother (by simp [htouch]) _⟩
  | some touch =>
      rw [htouch] at heffect hsizes hlost
      cases touch with
      | frames =>
          refine ⟨?_, hother (by simp [htouch]) _⟩
          rcases heffect with hsame | ⟨hframed, hnone, hnew⟩
          · exact h.same hsame
          · exact h.frames hnone (hlost hframed (by rw [hisNone, hnone]; rfl)) hnew
      | unframes =>
          refine ⟨?_, hother (by simp [htouch]) _⟩
          cases hframe : s.frames.lookup W.toplevel with
          | none =>
              have hnone : s.frameCore W.toplevel = none := by rw [State.frameCore, hframe]; rfl
              exact h.same (Eq.trans heffect hnone.symm)
          | some f => exact h.unframes hframe (hlost f hframe) heffect
      | asks geometry =>
          refine ⟨?_, hother (by simp [htouch]) _⟩
          dsimp only
          rw [hkept.passes_asks htouch halone hs]
          exact h.asks hsizes heffect
      | commits =>
          dsimp only
          rw [if_pos (hkept.passes_commits htouch halone hs), hkept.drawn_eq]
          have hcontent : (s.commitSurface W.surface).2 = W.contentSize (s, c) := htracks.contentSize htouch hok
          rw [hcontent] at heffect ⊢
          cases hframe : s.frames.lookup W.toplevel with
          | none =>
              rw [hframe] at heffect hlost
              have hsame : s'.frameCore W.toplevel = s.frameCore W.toplevel := by
                rw [State.frameCore, State.frameCore, heffect, hframe]
                rfl
              obtain ⟨hfollows, hright⟩ := h.commits_bare hframe hsame
              refine ⟨hfollows, fun m' answer' hrequest _ w height hsize => ?_⟩
              rw [heffect]
              exact hright w height fun hown left hleft => hlost rfl hown _ hsize left hleft
          | some f =>
              rw [hframe] at heffect
              obtain ⟨hfollows, hright⟩ := h.commits_framed hframe hsizes heffect
              refine ⟨hfollows, fun m' answer' hrequest _ w height hsize => ?_⟩
              rw [heffect]
              exact hright w height hsize

end Win.Follows

/-! ## Section 7: The Geometry Follows -/

/-- In every run from when a window is there, with no title bar and no geometry yet, whose steps lose none
of the bridge's geometries and none of its buffers, each commit shows the right one. -/
theorem geometry_follows (hdraws : E.drawing = L.drawing) {before as : List Action} {x : State (Window A) × Contents}
    (hbefore : StepsMeet (trackedStep E) SizeOk (State.initial (Window A) E, {}) before)
    (hreached : run (trackedStep E) (State.initial (Window A) E, {}) before = some x) {W : Win} (hopened : W.Kept x.1)
    (hbare : x.1.frames.lookup W.toplevel = none)
    (hmeets : StepsMeet (watched (trackedStep E) fun x => W.shows L E x.1)
      (fun x a => (W.Alone x.1.1 a ∧ W.Lives E x.1.1 a ∧ W.SizesOk x.1 a) ∧ SizeOk x.1 a ∧ W.NothingLost x.1 x.2 a)
      (x, {}) as) :
    StepsMeet (watched (trackedStep E) fun x => W.shows L E x.1)
      (fun x a => ∀ s', step E x.1.1 a = some s' → W.GeometryRight L x.1 a s' (W.shows L E x.1.1 a x.2)) (x, {}) as := by
  have htracked : x.1.IdsKept ∧ x.1.Tracks x.2 := tracks_of_run hbefore hreached
  apply stepsMeet_of_invariant (I := fun x : (State (Window A) × Contents) × Shown =>
    W.Kept x.1.1 ∧ W.Follows x.1.1 x.2 ∧ x.1.1.IdsKept ∧ x.1.1.Tracks x.1.2) _ _ _ hmeets
  · rintro ⟨⟨s, c⟩, g⟩ a ⟨x', g'⟩ ⟨hkept, hfollows, hids, htracks⟩ ⟨⟨halone, hlives, hsizes⟩, hok, hlost⟩ hstep
    obtain ⟨htracked, rfl⟩ := watched_eq_some.mp hstep
    obtain ⟨s', hs, rfl⟩ := Option.map_eq_some_iff.mp htracked
    obtain ⟨hnext, _⟩ := hfollows.step hdraws hkept htracks halone hlives hok hsizes hlost hs
    exact ⟨hkept.step hdraws hids halone hlives hs, hnext, hids.step hs, htracks.step hids hok htracked⟩
  · rintro ⟨⟨s, c⟩, g⟩ a ⟨hkept, hfollows, _, htracks⟩ ⟨⟨halone, hlives, hsizes⟩, hok, hlost⟩ s' hs
    exact (hfollows.step hdraws hkept htracks halone hlives hok hsizes hlost hs).2
  · have hnone : x.1.frameCore W.toplevel = none := by rw [State.frameCore, hbare]; rfl
    refine ⟨hopened, ⟨by simp, fun _ => .inl rfl, fun c hc => ?_⟩, htracked⟩
    cases hnone.symm.trans hc

/-- What an object may record of windows besides a window's own objects. -/
def Win.Apart (W : Win) (id : Id) : Link → Prop
  | .xdgSurface surface toplevel => surface = W.surface ∨ toplevel = some W.toplevel → id = W.xdgSurface
  | .toplevel xdgSurface => xdgSurface = W.xdgSurface → id = W.toplevel

instance (W : Win) (id : Id) : (l : Link) → Decidable (W.Apart id l)
  | .xdgSurface surface toplevel =>
      inferInstanceAs (Decidable (surface = W.surface ∨ toplevel = some W.toplevel → id = W.xdgSurface))
  | .toplevel xdgSurface => inferInstanceAs (Decidable (xdgSurface = W.xdgSurface → id = W.toplevel))

/-- That a window is there, by looking at each object. -/
def Win.opened {F : Type} (W : Win) (s : State F) : Bool :=
  let upstream (id : Id) (name : String) := (s.obj id).any fun o =>
    decide (o.iface.name = name) && (match o.kind with | .upstream (some _) => true | _ => false)
  upstream W.surface "wl_surface" && upstream W.xdgSurface "xdg_surface" && (s.obj W.toplevel).isSome &&
    decide (s.link W.xdgSurface = some (.xdgSurface W.surface (some W.toplevel))) &&
    decide (s.link W.toplevel = some (.toplevel W.xdgSurface)) &&
    s.objects.entries.all (fun e => decide (∀ l ∈ e.2.role.link, W.Apart e.1 l)) && s.frames.entries.isEmpty

private theorem State.link_eq_some {F : Type} {s : State F} {id : Id} {l : Link} (h : s.link id = some l) :
    ∃ o, ⟨id, o⟩ ∈ s.objects.entries ∧ o.role.link = some l := by
  obtain ⟨r, hr, hlink⟩ := Option.bind_eq_some_iff.mp h
  obtain ⟨o, ho, rfl⟩ := Option.map_eq_some_iff.mp hr
  exact ⟨o, AList.mem_lookup_iff.mp ho, hlink⟩

private theorem Win.kept_of_opened {W : Win} {s : State (Window A)} (h : W.opened s = true) : W.Kept s := by
  have hupstream : ∀ {id name}, ((s.obj id).any fun o =>
      decide (o.iface.name = name) && (match o.kind with | .upstream (some _) => true | _ => false)) = true →
      ∃ o up, s.obj id = some o ∧ o.iface.name = name ∧ o.kind = .upstream (some up) := by
    intro id name hany
    obtain ⟨o, ho, hchecked⟩ := exists_of_any hany
    obtain ⟨hname, hkind⟩ := Bool.and_eq_true_iff.mp hchecked
    split at hkind
    · rename_i up hup
      exact ⟨o, up, ho, of_decide_eq_true hname, hup⟩
    · cases hkind
  unfold opened at h
  simp only [Bool.and_eq_true, List.all_eq_true, decide_eq_true_eq, List.isEmpty_iff] at h
  obtain ⟨⟨⟨⟨⟨⟨hsurface, hxdgSurface⟩, htoplevel⟩, hlinkX⟩, hlinkT⟩, hentries⟩, hframes⟩ := h
  have hapart : ∀ id l, s.link id = some l → W.Apart id l := by
    intro id l hl
    obtain ⟨o, hmem, hlink⟩ := State.link_eq_some hl
    exact hentries ⟨id, o⟩ hmem l hlink
  refine ⟨⟨hlinkX, hlinkT, fun id t hl => ?_, fun id hl => ?_, fun id surface hl => ?_⟩, hupstream hsurface,
    hupstream hxdgSurface, htoplevel, fun t c hc => ?_⟩
  · exact hapart id _ hl (.inl rfl)
  · exact hapart id _ hl rfl
  · exact hapart id _ hl (.inr rfl)
  · obtain ⟨f, hf, _⟩ := Option.map_eq_some_iff.mp hc
    have hmem := AList.mem_lookup_iff.mp hf
    rw [hframes] at hmem
    cases hmem

/-- A window, and a buffer of 100 by 100 for it. -/
def bufferMade : List Action :=
  windowOpens ++ [.request ⟨2, 0, [.uint 3, .str (some "wl_shm"), .uint 1, .newId 10]⟩ ⟨some 16, true⟩,
    .request ⟨10, 0, [.newId 11, .fd 0, .int 40000]⟩ ⟨some 17, true⟩,
    .request ⟨11, 0, [.newId 12, .int 0, .int 100, .int 100, .int 400, .uint 0]⟩ ⟨some 18, true⟩]

/-- The window that `windowOpens` opens. -/
def windowOpened : Win := ⟨6, 7, 8⟩

def commit : Action :=
  .request ⟨6, 2, []⟩ ⟨some 0, true⟩

/-- The buffer is attached. -/
def attachesBuffer : List Action :=
  [.request ⟨6, 1, [.object 12, .int 0, .int 0]⟩ ⟨some 0, true⟩, commit]

/-- A geometry is asked for while there is a title bar, which then goes. -/
def asksFramed : List Action :=
  [.request ⟨9, 1, [.uint serverSide]⟩ ⟨none, true⟩] ++ attachesBuffer ++
    [.request ⟨7, 2, [.int 10, .int 10, .int 80, .int 80]⟩ ⟨some 0, true⟩, commit] ++
    [.request ⟨9, 1, [.uint clientSide]⟩ ⟨none, true⟩] ++ [commit]

/-- A geometry is asked for, and a title bar is added then. -/
def asksBare : List Action :=
  [.request ⟨7, 2, [.int 10, .int 10, .int 80, .int 80]⟩ ⟨some 0, true⟩] ++ attachesBuffer ++
    [.request ⟨9, 1, [.uint serverSide]⟩ ⟨none, true⟩]

theorem geometry_follows_example :
    ∃ x y, run (trackedStep windowSetting) (State.initial _ windowSetting, {}) bufferMade = some x ∧
      StepsMeet (watched (trackedStep windowSetting) fun x => windowOpened.shows (plainTitles 35) windowSetting x.1)
        (fun y a => ∀ s', step windowSetting y.1.1 a = some s' →
          windowOpened.GeometryRight (plainTitles 35) y.1 a s'
            (windowOpened.shows (plainTitles 35) windowSetting y.1.1 a y.2)) (x, {}) asksFramed ∧
      run (watched (trackedStep windowSetting) fun x => windowOpened.shows (plainTitles 35) windowSetting x.1) (x, {})
        asksFramed = some y ∧
      y.2.current = some (10, 10, 80, 80) := by
  have hsome : ((run (trackedStep windowSetting) (State.initial _ windowSetting, {}) bufferMade).any fun x =>
      decide (windowOpened.opened x.1 = true ∧ (x.1.frames.lookup windowOpened.toplevel).isNone ∧
        StepsMeet (watched (trackedStep windowSetting) fun x =>
            windowOpened.shows (plainTitles 35) windowSetting x.1)
          (fun y a => (windowOpened.Alone y.1.1 a ∧ windowOpened.Lives windowSetting y.1.1 a ∧
            windowOpened.SizesOk y.1 a) ∧ SizeOk y.1 a ∧ windowOpened.NothingLost y.1 y.2 a) (x, {}) asksFramed) &&
      (run (watched (trackedStep windowSetting) fun x => windowOpened.shows (plainTitles 35) windowSetting x.1) (x, {})
        asksFramed).any fun y => decide (y.2.current = some (10, 10, 80, 80))) = true := by
    decide
  obtain ⟨x, hx, hchecked⟩ := exists_of_any hsome
  obtain ⟨hopened, hends⟩ := Bool.and_eq_true_iff.mp hchecked
  obtain ⟨hopened, hbare, hmeets⟩ := of_decide_eq_true hopened
  obtain ⟨y, hy, hcurrent⟩ := exists_of_any hends
  exact ⟨x, y, hx, geometry_follows rfl (by decide) hx (Win.kept_of_opened hopened)
    (Option.isNone_iff_eq_none.mp hbare) hmeets, hy, of_decide_eq_true hcurrent⟩

/-- The title bar does not know of the geometry that was asked for before it was added: the compositor has
the whole surface with its borders. -/
theorem geometry_forgotten :
    ∃ x y z, run (trackedStep windowSetting) (State.initial _ windowSetting, {}) bufferMade = some x ∧
      windowOpened.Kept x.1 ∧ x.1.frames.lookup windowOpened.toplevel = none ∧
      StepsMeet (watched (trackedStep windowSetting) fun x => windowOpened.shows (plainTitles 35) windowSetting x.1)
        (fun y a => (windowOpened.Alone y.1.1 a ∧ windowOpened.Lives windowSetting y.1.1 a ∧
          windowOpened.SizesOk y.1 a) ∧ SizeOk y.1 a) (x, {}) (asksBare ++ [commit]) ∧
      run (watched (trackedStep windowSetting) fun x => windowOpened.shows (plainTitles 35) windowSetting x.1) (x, {})
        asksBare = some y ∧
      watched (trackedStep windowSetting) (fun x => windowOpened.shows (plainTitles 35) windowSetting x.1) y commit =
        some z ∧
      z.2.own = some (10, 10, 80, 80) ∧ z.2.current = some (0, -35, 100, 135) ∧
      ¬windowOpened.GeometryRight (plainTitles 35) y.1 commit z.1.1 z.2 := by
  have hsome : ((run (trackedStep windowSetting) (State.initial _ windowSetting, {}) bufferMade).any fun x =>
      decide (windowOpened.opened x.1 = true ∧ (x.1.frames.lookup windowOpened.toplevel).isNone ∧
        StepsMeet (watched (trackedStep windowSetting) fun x =>
            windowOpened.shows (plainTitles 35) windowSetting x.1)
          (fun y a => (windowOpened.Alone y.1.1 a ∧ windowOpened.Lives windowSetting y.1.1 a ∧
            windowOpened.SizesOk y.1 a) ∧ SizeOk y.1 a) (x, {}) (asksBare ++ [commit])) &&
      (run (watched (trackedStep windowSetting) fun x => windowOpened.shows (plainTitles 35) windowSetting x.1) (x, {})
        asksBare).any
        fun y => (watched (trackedStep windowSetting)
          (fun x => windowOpened.shows (plainTitles 35) windowSetting x.1) y commit).any
          fun z => (z.1.1.frames.lookup windowOpened.toplevel).any fun f =>
            decide (windowOpened.touch y.1.1 ⟨6, 2, []⟩ = some .commits ∧
              windowOpened.contentSize y.1 = some (100, 100) ∧ z.2.own = some (10, 10, 80, 80) ∧
              z.2.current = some (0, -35, 100, 135) ∧
              (plainTitles 35).extended f.drawn.inner (10, 10, 80, 80) = (10, -25, 80, 115))) = true := by
    decide
  obtain ⟨x, hx, hchecked⟩ := exists_of_any hsome
  obtain ⟨hopened, hends⟩ := Bool.and_eq_true_iff.mp hchecked
  obtain ⟨hopened, hbare, hmeets⟩ := of_decide_eq_true hopened
  obtain ⟨y, hy, hends⟩ := exists_of_any hends
  obtain ⟨z, hz, hends⟩ := exists_of_any hends
  obtain ⟨f, hf, hends⟩ := exists_of_any hends
  obtain ⟨htouch, hsize, hown, hcurrent, hextended⟩ := of_decide_eq_true hends
  refine ⟨x, y, z, hx, Win.kept_of_opened hopened, Option.isNone_iff_eq_none.mp hbare, hmeets, hy, hz, hown,
    hcurrent, fun hright => ?_⟩
  -- The geometry that was asked for, with the borders around it, is another.
  have hshown := hright _ _ rfl htouch 100 100 hsize
  rw [hf] at hshown
  dsimp only at hshown
  rw [hcurrent, hown, Option.getD_some, hextended] at hshown
  cases hshown

end Psbox.Decorations
