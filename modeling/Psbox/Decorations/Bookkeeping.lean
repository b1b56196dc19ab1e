import Psbox.Decorations.Events

/-!
# What Bookkeeping Leaves Alone

Much of what the proxy does for a message only changes roles and frames, and asks the
compositor for things or tells the bridge something of its own. `Quiet s s'` says so of
two states: the objects are the same, no object gets an input focus, and every id that is
recorded was recorded before or is of an object there now. `Still s s'` says as well that
nothing changes that sizes are worked out from.
-/

namespace Psbox.Decorations

variable {F : Type} {E : Setting F}

/-! ## Section 1: Recorded Ids -/

/-- Where an id is recorded. -/
inductive Slot where
  /-- An `xdg_surface`'s toplevel. -/
  | toplevel
  /-- With an object, otherwise. -/
  | object
  /-- With a title bar. -/
  | frame
  deriving DecidableEq, Repr

def Surface.refs (x : Surface) : List Ref :=
  x.attached.toList ++ x.pendingAttach.join.toList ++ x.outputs

/-- The ids recorded in a role. -/
def Role.refs : Role → List (Slot × Ref)
  | .surface x => x.refs.map fun r => (.object, r)
  | .viewport r | .xdgOutput r | .popup r => [(.object, r)]
  | .xdgSurface r t => (.object, r) :: t.toList.map fun r => (.toplevel, r)
  | .toplevel t => [(.object, t.xdgSurface)]
  | _ => []

def Kind.refs : Kind → List (Slot × Ref)
  | .decoration toplevel => [(.object, toplevel)]
  | _ => []

/-- An id is recorded, in the role or the kind of an object, or as the toplevel or the
surface of a title bar. -/
def State.Records (s : State F) (holder : Id) (slot : Slot) (r : Ref) : Prop :=
  (∃ o, s.obj holder = some o ∧ ((slot, r) ∈ o.role.refs ∨ (slot, r) ∈ o.kind.refs)) ∨
    slot = .frame ∧
      ∃ f, s.frames.lookup holder = some f ∧ (r = ⟨holder, f.toplevel.born⟩ ∨ r = f.surface)

/-- What of a role sizes are worked out from. -/
def Role.sized : Role → Role
  | .surface x => .surface { x with preferredScale := Option.none, outputs := [] }
  | .buffer width height => .buffer width height
  | .bufferParams size => .bufferParams size
  | .viewport r => .viewport r
  | _ => .none

/-! ## Section 2: Quiet Changes -/

/-- What of an object no bookkeeping changes. -/
def Obj.core (o : Obj) : Interface × Nat × Kind × Nat :=
  (o.iface, o.version, o.kind, o.born)

/-- An entry that is no part of the life of an object, nor of an event passed on. -/
def Entry.aside : Entry → Bool
  | .own _ _ _ | .passed _ _ _ => true
  | _ => false

/-- Whether an object has an input focus. -/
def State.focused (s : State F) (id : Id) : Bool :=
  (s.role id).any Role.isFocus

/-- Only roles and frames change, and only asides are logged. -/
structure Quiet (s s' : State F) : Prop where
  core : ∀ id, (s'.obj id).map Obj.core = (s.obj id).map Obj.core
  focused : ∀ id, s'.focused id → s.focused id
  refs : ∀ holder slot r, s'.Records holder slot r → s.Records holder slot r ∨ r = s.ref r.id
  births : s'.births = s.births
  next : s'.nextServerId = s.nextServerId
  data : s'.data = s.data
  log : ∃ asides, s'.log = s.log ++ asides ∧ ∀ e ∈ asides, e.aside

namespace Quiet

theorem refl (s : State F) : Quiet s s :=
  ⟨fun _ => rfl, fun _ h => h, fun _ _ _ h => .inl h, rfl, rfl, rfl, [], (List.append_nil _).symm, by simp⟩

theorem obj_isSome {s s' : State F} (h : Quiet s s') (id : Id) :
    (s'.obj id).isSome = (s.obj id).isSome := by
  have hcore := congrArg Option.isSome (h.core id)
  simpa using hcore

theorem kind {s s' : State F} (h : Quiet s s') (id : Id) :
    (s'.obj id).map Obj.kind = (s.obj id).map Obj.kind := by
  have hcore := congrArg (Option.map fun c => c.2.2.1) (h.core id)
  simpa [Option.map_map, Function.comp_def, Obj.core] using hcore

theorem born {s s' : State F} (h : Quiet s s') (id : Id) :
    (s'.obj id).map Obj.born = (s.obj id).map Obj.born := by
  have hcore := congrArg (Option.map fun c => c.2.2.2) (h.core id)
  simpa [Option.map_map, Function.comp_def, Obj.core] using hcore

theorem ref {s s' : State F} (h : Quiet s s') (id : Id) : s'.ref id = s.ref id := by
  rw [State.ref, State.ref, h.born]

theorem upstream {s s' : State F} (h : Quiet s s') (id : Id) : s'.upstream id = s.upstream id := by
  rw [State.upstream, State.upstream, h.kind]

theorem checkNewId {s s' : State F} (h : Quiet s s') (id : Id) :
    s'.checkNewId id = s.checkNewId id := by
  rw [State.checkNewId, State.checkNewId, h.obj_isSome]

theorem trans {s t u : State F} (h : Quiet s t) (h' : Quiet t u) : Quiet s u := by
  obtain ⟨asides, hlog, hasides⟩ := h.log
  obtain ⟨asides', hlog', hasides'⟩ := h'.log
  refine ⟨fun id => (h'.core id).trans (h.core id), fun id hid => h.focused id (h'.focused id hid), ?_,
    h'.births.trans h.births, h'.next.trans h.next, h'.data.trans h.data, asides ++ asides', ?_, ?_⟩
  · intro holder slot r hr
    rcases h'.refs holder slot r hr with hr | hr
    · exact h.refs holder slot r hr
    · right
      rw [← h.ref]
      exact hr
  · rw [hlog', hlog, List.append_assoc]
  · intro e he
    rcases List.mem_append.mp he with he | he
    · exact hasides e he
    · exact hasides' e he

end Quiet

/-- A quiet change of nothing that sizes are worked out from. -/
structure Still (s s' : State F) : Prop extends Quiet s s' where
  sized : ∀ id, (s'.role id).map Role.sized = (s.role id).map Role.sized

namespace Still

theorem refl (s : State F) : Still s s :=
  ⟨Quiet.refl s, fun _ => rfl⟩

theorem trans {s t u : State F} (h : Still s t) (h' : Still t u) : Still s u :=
  ⟨h.toQuiet.trans h'.toQuiet, fun id => (h'.sized id).trans (h.sized id)⟩

theorem foldl {α : Type} {f : State F → α → State F} (hf : ∀ s a, Still s (f s a)) (as : List α)
    (s : State F) : Still s (as.foldl f s) := by
  induction as generalizing s with
  | nil => exact refl s
  | cons a as ih => exact (hf s a).trans (ih (f s a))

theorem note (s : State F) {e : Entry} (he : e.aside) : Still s (s.note e) :=
  ⟨⟨fun _ => rfl, fun _ h => h, fun _ _ _ h => .inl h, rfl, rfl, rfl, [e], rfl, by simpa using he⟩,
    fun _ => rfl⟩

/-- Only the frames differ, and each is of the toplevel and the surface that a frame was
of, or of objects there now. -/
theorem frames (s : State F) {frames : Table (Frame F)}
    (hframes : ∀ t f, frames.lookup t = some f →
      (∃ f', s.frames.lookup t = some f' ∧ f.toplevel = f'.toplevel ∧ f.surface = f'.surface) ∨
        f.toplevel = s.ref t ∧ f.surface = s.ref f.surface.id) :
    Still s { s with frames := frames } := by
  refine ⟨⟨fun _ => rfl, fun _ h => h, ?_, rfl, rfl, rfl, [], (List.append_nil _).symm, by simp⟩,
    fun _ => rfl⟩
  rintro t slot r (hr | ⟨hslot, f, hf, hr⟩)
  · exact .inl (.inl hr)
  · rcases hframes t f hf with ⟨f', hf', htoplevel, hsurface⟩ | ⟨htoplevel, hsurface⟩
    · rw [htoplevel, hsurface] at hr
      exact .inl (.inr ⟨hslot, f', hf', hr⟩)
    · right
      rcases hr with rfl | rfl
      · rw [htoplevel]
        rfl
      · exact hsurface

/-- A change of frames, and of neither what they are of nor which there are. -/
theorem adjustFrame (s : State F) (toplevel : Id) {g : Frame F → Frame F}
    (hg : ∀ f, (g f).toplevel = f.toplevel ∧ (g f).surface = f.surface) :
    Still s (s.adjustFrame toplevel g) := by
  apply frames
  intro t f hf
  left
  rw [Table.lookup_adjust] at hf
  split at hf
  · obtain ⟨f', hf', hgf⟩ := Option.map_eq_some_iff.mp hf
    rw [← hgf]
    exact ⟨f', hf', hg f'⟩
  · exact ⟨f, hf, rfl, rfl⟩

/-- A change of how a frame looks. -/
theorem redrawn (s : State F) (toplevel : Id) (g : Frame F → F) :
    Still s (s.adjustFrame toplevel fun f => { f with drawn := g f }) :=
  adjustFrame s toplevel fun _ => ⟨rfl, rfl⟩

theorem eraseFrame (s : State F) (toplevel : Id) :
    Still s { s with frames := s.frames.erase toplevel } := by
  apply frames
  intro t f hf
  left
  by_cases ht : t = toplevel
  · rw [ht, AList.lookup_erase] at hf
    cases hf
  · rw [AList.lookup_erase_ne ht] at hf
    exact ⟨f, hf, rfl, rfl⟩

end Still

namespace State

theorem obj_adjustRole (s : State F) (id j : Id) (f : Role → Role) :
    (s.adjustRole id f).obj j =
      if j = id then (s.obj j).map fun o => { o with role := f o.role } else s.obj j :=
  Table.lookup_adjust id j _ s.objects

theorem role_adjustRole (s : State F) (id j : Id) (f : Role → Role) :
    (s.adjustRole id f).role j = if j = id then (s.role j).map f else s.role j := by
  rw [role, obj_adjustRole, role]
  split
  · rw [Option.map_map, Option.map_map]
    rfl
  · rfl

/-- A role may follow another: it gives no focus, and records what the other did and
objects there now. -/
structure Follows (s : State F) (r r' : Role) : Prop where
  focus : r'.isFocus → r.isFocus
  refs : ∀ x ∈ r'.refs, x ∈ r.refs ∨ x.2 = s.ref x.2.id

theorem Follows.of_eq {s : State F} {r r' : Role} (hfocus : r'.isFocus = r.isFocus)
    (hrefs : r'.refs = r.refs) : s.Follows r r' := by
  refine ⟨fun h => hfocus ▸ h, ?_⟩
  intro x hx
  rw [hrefs] at hx
  exact .inl hx

private theorem quiet_adjustRole (s : State F) (id : Id) {f : Role → Role}
    (hf : ∀ r, s.role id = some r → s.Follows r (f r)) : Quiet s (s.adjustRole id f) := by
  refine ⟨fun j => ?_, fun j hj => ?_, ?_, rfl, rfl, rfl, [], (List.append_nil _).symm, by simp⟩
  · rw [obj_adjustRole]
    split
    · rw [Option.map_map]
      rfl
    · rfl
  · rw [focused, role_adjustRole] at hj
    split at hj
    · rename_i hid
      cases hrole : s.role j with
      | none =>
          rw [hrole] at hj
          cases hj
      | some r =>
          rw [hrole] at hj
          rw [focused, hrole]
          exact (hf r (hid ▸ hrole)).focus hj
    · exact hj
  · rintro j slot r (⟨o, ho, hr⟩ | hr)
    · rw [obj_adjustRole] at ho
      split at ho
      · rename_i hid
        obtain ⟨o', ho', hof⟩ := Option.map_eq_some_iff.mp ho
        rw [← hof] at hr
        rcases hr with hr | hr
        · have hrole : s.role id = some o'.role := by
            rw [role, ← hid, ho']
            rfl
          rcases (hf _ hrole).refs (slot, r) hr with hr | hr
          · exact .inl (.inl ⟨o', ho', .inl hr⟩)
          · exact .inr hr
        · exact .inl (.inl ⟨o', ho', .inr hr⟩)
      · exact .inl (.inl ⟨o, ho, hr⟩)
    · exact .inl (.inr hr)

private theorem still_adjustRole (s : State F) (id : Id) {f : Role → Role}
    (hf : ∀ r, s.role id = some r → s.Follows r (f r) ∧ (f r).sized = r.sized) :
    Still s (s.adjustRole id f) := by
  refine ⟨s.quiet_adjustRole id fun r hr => (hf r hr).1, ?_⟩
  intro j
  rw [role_adjustRole]
  split
  · rename_i hid
    cases hrole : s.role j with
    | none => rfl
    | some r =>
        show some (f r).sized = some r.sized
        rw [(hf r (hid ▸ hrole)).2]
  · rfl

/-- A change of what is tracked in a role, but not of the ids in it. -/
theorem still_adjustRole_same (s : State F) (id : Id) {f : Role → Role}
    (hf : ∀ r, (f r).isFocus = r.isFocus ∧ (f r).refs = r.refs ∧ (f r).sized = r.sized) :
    Still s (s.adjustRole id f) :=
  s.still_adjustRole id fun r _ => ⟨.of_eq (hf r).1 (hf r).2.1, (hf r).2.2⟩

/-- A new role, which records objects there now. -/
theorem quiet_adjustRole_const (s : State F) (id : Id) {r : Role} (hfocus : r.isFocus = false)
    (hrefs : ∀ x ∈ r.refs, x.2 = s.ref x.2.id) : Quiet s (s.adjustRole id fun _ => r) := by
  apply quiet_adjustRole
  intro _ _
  refine ⟨fun h => ?_, fun x hx => .inr (hrefs x hx)⟩
  rw [hfocus] at h
  cases h

/-! ## Section 3: The Helpers -/

private theorem follows_surface {s : State F} {x x' : Surface}
    (h : ∀ r ∈ x'.refs, r ∈ x.refs ∨ r = s.ref r.id) : s.Follows (.surface x) (.surface x') := by
  refine ⟨fun h => h, ?_⟩
  intro y hy
  obtain ⟨r, hr, rfl⟩ := List.mem_map.mp hy
  rcases h r hr with hr | hr
  · exact .inl (List.mem_map.mpr ⟨r, hr, rfl⟩)
  · exact .inr hr

/-- A change of a surface that keeps what sizes are worked out from. -/
theorem still_adjustSurface (s : State F) (id : Id) {f : Surface → Surface}
    (hrefs : ∀ x, ∀ r ∈ (f x).refs, r ∈ x.refs ∨ r = s.ref r.id)
    (hsized : ∀ x, (Role.surface (f x)).sized = (Role.surface x).sized) :
    Still s (s.adjustSurface id f) := by
  apply still_adjustRole
  intro r _
  cases r with
  | surface x => exact ⟨follows_surface (hrefs x), hsized x⟩
  | _ => exact ⟨.of_eq rfl rfl, rfl⟩

/-- A change of a surface that records what it did and objects there now. -/
theorem quiet_adjustSurface (s : State F) (id : Id) {f : Surface → Surface}
    (hf : ∀ x, ∀ r ∈ (f x).refs, r ∈ x.refs ∨ r = s.ref r.id) : Quiet s (s.adjustSurface id f) := by
  apply quiet_adjustRole
  intro r _
  cases r with
  | surface x => exact follows_surface (hf x)
  | _ => exact .of_eq rfl rfl

theorem still_adjustOutput (s : State F) (id : Id) (f : Output → Output) :
    Still s (s.adjustOutput id f) := by
  apply still_adjustRole_same
  intro r
  cases r <;> exact ⟨rfl, rfl, rfl⟩

private theorem still_requestUpstream (s : State F) (up : Option ObjectId) (name : String) (args : List Int) :
    Still s (s.requestUpstream up name args) := by
  cases up with
  | none => exact Still.refl s
  | some up => exact Still.note s rfl

private theorem still_sendAnchor (s : State F) (up : Option ObjectId)
    (anchor : Option (Int × Int × Int × Int)) (offset : Int) :
    Still s (s.sendAnchor up anchor offset) := by
  unfold sendAnchor
  split
  · exact still_requestUpstream _ _ _ _
  · exact Still.refl s

private theorem still_sendParentSize (s : State F) (up : Option ObjectId) (version : Nat)
    (size : Option (Int × Int)) (offset : Int) :
    Still s (s.sendParentSize up version size offset) := by
  unfold sendParentSize
  split
  · split
    · exact still_requestUpstream _ _ _ _
    · exact Still.refl s
  · exact Still.refl s

private theorem still_setPositioner (s : State F) (positioner : Id) (offset : Int) :
    Still s (s.setPositioner positioner offset) := by
  unfold setPositioner
  split
  · split
    · exact (still_sendAnchor _ _ _ _).trans (still_sendParentSize _ _ _ _ _)
    · exact Still.refl s
  · exact Still.refl s

theorem still_offsetPositioner (s : State F) (positioner : Id) (offset : Int) :
    Still s (s.offsetPositioner positioner offset) := by
  unfold offsetPositioner
  split
  · exact s.still_setPositioner positioner offset
  · exact Still.refl s

theorem still_restorePositioner (s : State F) (positioner : Id) (offset : Int) :
    Still s (s.restorePositioner positioner offset) := by
  unfold restorePositioner
  split
  · exact s.still_setPositioner positioner 0
  · exact Still.refl s

private theorem still_resendSizeLimits (s : State F) (toplevel : Option ObjectId) (min max : Int × Int)
    (offset : Int) : Still s (s.resendSizeLimits toplevel min max offset) := by
  apply Still.foldl
  intro s limit
  split
  · exact still_requestUpstream _ _ _ _
  · exact Still.refl s

theorem still_rescale (s : State F) (affected : Id → Bool) : Still s (s.rescale E affected) :=
  Still.foldl (fun s _ => Still.redrawn s _ _) _ s

private theorem still_tellLogicalSize (logical : Int × Int) (s : State F) (x : Id × Nat) :
    Still s (s.tellLogicalSize logical x) := by
  unfold tellLogicalSize
  have hsize : Still s (s.note (.own x.1 "logical_size" [.int logical.1, .int logical.2])) :=
    Still.note s rfl
  split
  · exact hsize.trans (Still.note _ rfl)
  · exact hsize

private theorem still_tellMode (s : State F) (output : Id) (done : Bool) :
    Still s (s.tellMode E output done) := by
  unfold tellMode
  split
  · split
    · dsimp only
      rename_i told o _ _ _ flags size refresh _
      have htold : Still s (s.adjustOutput output fun o => { o with told := some (flags, told, refresh) }) := by
        apply still_adjustRole_same
        intro r
        cases r <;> exact ⟨rfl, rfl, rfl⟩
      split
      · exact htold
      · split
        · exact ((htold.trans (Still.note _ rfl)).trans
            (Still.foldl (still_tellLogicalSize _) _ _)).trans (Still.note _ rfl)
        · exact (htold.trans (Still.note _ rfl)).trans
            (Still.foldl (still_tellLogicalSize _) _ _)
    · exact Still.refl s
  · exact Still.refl s

theorem still_pass (s : State F) (up sent : Option ObjectId) (request : String)
    (args : List UpstreamArg) : Still s (s.pass up sent request args) := by
  unfold pass
  split
  · exact Still.note s rfl
  · exact Still.refl s

/-! ## Section 4: Requests -/

private theorem quiet_setDestination (s : State F) (viewport : Id) (destination : Option (Int × Int)) :
    Quiet s (s.setDestination viewport destination) := by
  unfold setDestination
  split
  · exact s.quiet_adjustSurface _ fun _ _ hr => .inl hr
  · exact Quiet.refl s

private theorem refs_commit {x : Surface} {r : Ref} (hr : r ∈ x.commit.refs) : r ∈ x.refs := by
  simp only [Surface.refs, Surface.commit, List.mem_append, Option.mem_toList] at hr ⊢
  cases hp : x.pendingAttach with
  | none => simpa [hp] using hr
  | some b =>
      have hr' : b = some r ∨ r ∈ x.outputs := by simpa [hp] using hr
      rcases hr' with hr' | hr'
      · left
        right
        simpa using hr'
      · exact .inr hr'

private theorem quiet_commitSurface (s : State F) (surface : Id) : Quiet s (s.commitSurface surface).1 := by
  unfold commitSurface
  split
  · exact s.quiet_adjustSurface _ fun _ _ hr => .inl (refs_commit hr)
  · exact Quiet.refl s

theorem quiet_beforeRequest (s : State F) (sender : Id) (iface request : String)
    (args : List BridgeArg) : Quiet s (s.beforeRequest E sender iface request args).1 := by
  unfold beforeRequest
  split
  -- `wl_surface.attach`
  case h_1 =>
    apply quiet_adjustSurface
    intro x r hr
    simp only [Surface.refs, List.mem_append, Option.mem_toList, Option.join_some] at hr ⊢
    rcases hr with (hr | hr) | hr
    · exact .inl (.inl (.inl hr))
    · right
      split at hr
      · rw [← Option.some.inj hr]
        rfl
      · cases hr
    · exact .inl (.inr hr)
  -- `wl_surface.set_buffer_scale`
  case h_2 => exact s.quiet_adjustSurface _ fun _ _ hr => .inl hr
  -- `wl_surface.commit`
  case h_3 =>
    simp only
    split
    · exact (s.quiet_commitSurface sender).trans (Still.redrawn _ _ _).toQuiet
    · exact s.quiet_commitSurface sender
  -- `wp_viewport.set_destination` and `wp_viewport.destroy`
  case h_4 | h_5 => exact quiet_setDestination _ _ _
  -- `zwp_linux_buffer_params_v1.create`
  case h_6 =>
    dsimp only
    apply quiet_adjustRole
    intro r _
    cases r <;> exact .of_eq rfl rfl
  -- `xdg_surface.set_window_geometry`
  case h_7 =>
    simp only
    split
    · apply Still.toQuiet
      apply Still.adjustFrame
      intro f
      exact ⟨rfl, rfl⟩
    · exact Quiet.refl s
  -- `xdg_surface.get_popup` and `xdg_popup.reposition`
  case h_8 | h_9 => exact (still_offsetPositioner _ _ _).toQuiet
  -- `xdg_toplevel.set_title`
  case h_12 =>
    dsimp only
    apply (Still.redrawn _ _ _).toQuiet.trans
    apply Still.toQuiet
    apply still_adjustRole_same
    intro r
    cases r <;> exact ⟨rfl, rfl, rfl⟩
  -- `xdg_toplevel.destroy`
  case h_15 => exact (Still.eraseFrame _ _).toQuiet
  -- Any other.
  case h_16 => exact Quiet.refl s
  all_goals
    dsimp only
    apply Still.toQuiet
    apply still_adjustRole_same
    intro r
    cases r <;> exact ⟨rfl, rfl, rfl⟩

private theorem quiet_setChildRole (s : State F) (child : Option Id) {role : Role}
    (hfocus : role.isFocus = false) (hrefs : ∀ x ∈ role.refs, x.2 = s.ref x.2.id) :
    Quiet s (s.setChildRole child role) := by
  cases child with
  | none => exact Quiet.refl s
  | some c => exact s.quiet_adjustRole_const c hfocus hrefs

theorem quiet_apply (s : State F) (sender : Id) (child : Option Id) (after : After) :
    Quiet s (s.apply sender child after) := by
  cases after with
  | nothing => exact Quiet.refl s
  | reposition positioner offset => exact (still_restorePositioner _ _ _).toQuiet
  | buffer _ _ => exact quiet_setChildRole _ _ rfl fun _ hx => (nomatch hx)
  | viewport _ | xdgOutput _ | xdgSurface _ =>
      apply quiet_setChildRole _ _ rfl
      intro x hx
      simp only [Role.refs, Option.toList_none, List.map_nil, List.mem_singleton] at hx
      rw [hx]
      rfl
  | toplevel =>
      cases child with
      | none => exact Quiet.refl s
      | some c =>
          apply Quiet.trans _ (quiet_setChildRole _ (some c) rfl _)
          · apply quiet_adjustRole
            intro r _
            cases r with
            | xdgSurface surface t =>
                refine ⟨fun h => h, ?_⟩
                intro x hx
                rcases List.mem_cons.mp hx with rfl | hx
                · exact .inl List.mem_cons_self
                · right
                  rw [List.mem_singleton.mp hx]
                  rfl
            | _ => exact .of_eq rfl rfl
          · intro x hx
            rw [List.mem_singleton.mp hx]
            rfl
  | popup parent positioner offset =>
      apply (still_restorePositioner _ _ _).toQuiet.trans
      apply quiet_setChildRole _ _ rfl
      intro x hx
      rw [List.mem_singleton.mp hx]
      rfl

theorem still_addFrame {s s' : State F} {toplevel : Id} {framed : Bool}
    (h : s.addFrame E toplevel framed = some s') : Still s s' := by
  unfold addFrame at h
  split at h
  · cases h
    exact Still.refl s
  split at h
  · split at h
    · split at h
      · split at h
        · cases h
          apply Still.trans _ (still_resendSizeLimits _ _ _ _ _)
          apply Still.frames
          intro t f hf
          by_cases ht : t = toplevel
          · rw [ht, AList.lookup_insert] at hf
            cases hf
            exact .inr ⟨by rw [ht], rfl⟩
          · rw [AList.lookup_insert_ne ht] at hf
            exact .inl ⟨f, hf, rfl, rfl⟩
        · cases h
      · cases h
    · cases h
  · cases h

theorem still_removeFrame (s : State F) (toplevel : Id) : Still s (s.removeFrame toplevel) := by
  unfold removeFrame
  split
  · simp only
    split
    · exact (Still.eraseFrame s toplevel).trans (still_resendSizeLimits _ _ _ _ _)
    · exact Still.eraseFrame s toplevel
  · exact Still.refl s

theorem still_setMode (s : State F) (sender toplevel : Id) (mode : Nat) (framed : Bool) :
    Still s (s.setMode E sender toplevel mode framed) := by
  unfold setMode
  split
  · split
    · rename_i s' hframe
      exact (still_addFrame hframe).trans (Still.note _ rfl)
    · exact Still.note _ rfl
  · exact (s.still_removeFrame toplevel).trans (Still.note _ rfl)

/-! ## Section 5: Events -/

theorem still_focus (s : State F) (bridge : Id) (iface event : String) (hidden : Bool)
    (args : List BridgeArg) : Still s (s.focus bridge iface event hidden args).1 := by
  unfold focus
  split
  · rename_i f hrole
    dsimp only
    apply still_adjustRole
    intro r hr
    -- It had a focus before.
    cases hrole.symm.trans hr
    exact ⟨.of_eq rfl rfl, rfl⟩
  · exact Still.refl s

private theorem still_advertise (s : State F) (bridge : Id) (args : List BridgeArg) :
    Still s (s.advertise E bridge args).1 := by
  unfold advertise
  simp only
  split
  · exact Still.refl s
  · dsimp only
    apply still_adjustRole_same
    intro r
    cases r <;> exact ⟨rfl, rfl, rfl⟩

private theorem still_withdraw (s : State F) (bridge : Id) (name : Nat) :
    Still s (s.withdraw bridge name).1 := by
  unfold withdraw
  split
  · rename_i globals hrole
    dsimp only
    apply still_adjustRole
    intro r hr
    cases hrole.symm.trans hr
    exact ⟨.of_eq rfl rfl, rfl⟩
  · exact Still.refl s

/-- Of these, only where a surface is records ids. -/
theorem still_adjustEvent (s : State F) (bridge : Id) (iface event : String) (args : List BridgeArg) :
    Still s (s.adjustEvent E bridge iface event args).1 := by
  unfold adjustEvent
  split
  -- `xdg_toplevel.configure`
  case h_1 =>
    split
    · exact Still.redrawn _ _ _
    · exact Still.refl s
  -- `xdg_toplevel.wm_capabilities`
  case h_3 =>
    split
    · exact Still.redrawn _ _ _
    · exact Still.refl s
  -- `wl_surface.enter`
  case h_5 =>
    dsimp only
    apply Still.trans _ (still_rescale _ _)
    refine s.still_adjustSurface bridge (fun x r hr => ?_) fun _ => rfl
    simp only [Surface.refs, List.mem_append, List.mem_singleton] at hr ⊢
    rcases hr with hr | hr | hr
    · exact .inl (.inl hr)
    · exact .inl (.inr hr)
    · right
      rw [hr]
      rfl
  -- `wl_surface.leave`
  case h_6 =>
    dsimp only
    apply Still.trans _ (still_rescale _ _)
    refine s.still_adjustSurface bridge (fun x r hr => ?_) fun _ => rfl
    simp only [Surface.refs, List.mem_append] at hr ⊢
    rcases hr with hr | hr
    · exact .inl (.inl hr)
    · exact .inl (.inr (List.mem_of_mem_filter hr))
  -- `wl_surface.preferred_buffer_scale`
  case h_7 =>
    dsimp only
    apply Still.trans _ (still_rescale _ _)
    refine s.still_adjustSurface bridge (fun x r hr => ?_) fun _ => rfl
    exact .inl hr
  -- `wl_output.geometry`
  case h_9 =>
    dsimp only
    exact s.still_adjustOutput bridge _
  -- `wl_output.done`
  case h_10 =>
    simp only
    split
    · exact still_tellMode _ _ _
    · exact Still.refl s
  -- `zxdg_output_v1.done`
  case h_11 =>
    split
    · simp only
      split
      · exact still_tellMode _ _ _
      · exact Still.refl s
    · exact Still.refl s
  -- `zxdg_output_v1.logical_size`
  case h_12 =>
    split
    · dsimp only
      exact s.still_adjustOutput _ _
    · exact Still.refl s
  -- `wl_output.scale`
  case h_13 =>
    dsimp only
    exact (s.still_adjustOutput bridge _).trans (still_rescale _ _)
  all_goals exact Still.refl s

/-- What is recorded before an event, unless it tells of a buffer that was made. -/
theorem still_beforeEvent (s : State F) (bridge : Id) {iface event : String} (hidden : Bool)
    (args : List BridgeArg) (hcreated : ¬(iface = "zwp_linux_buffer_params_v1" ∧ event = "created")) :
    Still s (s.beforeEvent E bridge iface event hidden args).1 := by
  unfold beforeEvent
  split
  · exact s.still_advertise bridge args
  split
  · exact s.still_withdraw bridge _
  split
  · simp only
    split
    · exact s.still_adjustOutput bridge _
    · exact (s.still_adjustOutput bridge _).trans (still_focus _ _ _ _ _ _)
  · exact (still_adjustEvent _ _ _ _ _).trans (still_focus _ _ _ _ _ _)

/-- The buffer gets the size that was asked for, if any. -/
theorem beforeEvent_created (s : State F) (bridge : Id) (hidden : Bool) (args : List BridgeArg) :
    s.beforeEvent E bridge "zwp_linux_buffer_params_v1" "created" hidden args =
      match s.role bridge with
      | some (.bufferParams (some size)) =>
          let out := (s.adjustRole (uint args 0) fun _ => .buffer size.1 size.2).focus bridge
            "zwp_linux_buffer_params_v1" "created" hidden args
          (out.1, args, out.2)
      | _ => (s, args, !hidden) := by
  unfold beforeEvent
  apply (if_neg (by decide)).trans
  apply (if_neg (by decide)).trans
  apply (if_neg (by simp)).trans
  exact if_pos ⟨rfl, rfl⟩

theorem quiet_beforeEvent (s : State F) (bridge : Id) (iface event : String) (hidden : Bool)
    (args : List BridgeArg) : Quiet s (s.beforeEvent E bridge iface event hidden args).1 := by
  by_cases hcreated : iface = "zwp_linux_buffer_params_v1" ∧ event = "created"
  · rw [hcreated.1, hcreated.2, beforeEvent_created]
    split
    · apply Quiet.trans _ (still_focus _ _ _ _ _ _).toQuiet
      apply quiet_adjustRole_const _ _ rfl
      intro x hx
      cases hx
    · exact Quiet.refl s
  · exact (s.still_beforeEvent bridge hidden args hcreated).toQuiet

theorem still_setOutput (s : State F) (global : Nat) (geometry : Option OutputGeometry) :
    Still s (s.setOutput global geometry) := by
  cases geometry with
  | none | some g =>
      exact ⟨⟨fun _ => rfl, fun _ h => h, fun _ _ _ h => .inl h, rfl, rfl, rfl, [],
        (List.append_nil _).symm, by simp⟩, fun _ => rfl⟩

theorem still_close (s : State F) (toplevel : Id) : Still s (s.close toplevel) := by
  unfold close
  split
  · exact Still.note _ rfl
  · exact Still.refl s

end State

end Psbox.Decorations
