import Psbox.Decorations.CopiesFollow

/-!
# Windows

A window is a `wl_surface`, the `xdg_surface` of it and that one's `xdg_toplevel`. The proxy finds
from one to the other by the ids it recorded (`Link`), and to the title bar by the id of the toplevel.
As long as the three objects live and no other object is made for them, what it finds is right
(`Win.Kept`), whatever else happens.
-/

namespace Psbox.Decorations

open Psbox.Foundations
open State (positionerRequests)

variable {F : Type} {E : Setting F}

/-! ## Section 1: Links -/

/-- What a role records of a window. -/
inductive Link where
  | xdgSurface (surface : Id) (toplevel : Option Id)
  | toplevel (xdgSurface : Id)
  deriving DecidableEq, Repr

def Role.link : Role → Option Link
  | .xdgSurface r t => some (.xdgSurface r.id (t.map Ref.id))
  | .toplevel t => some (.toplevel t.xdgSurface.id)
  | _ => Option.none

private theorem Role.link_of_tag {r : Role} (hxdgSurface : r.tag ≠ .xdgSurface) (htoplevel : r.tag ≠ .toplevel) :
    r.link = Option.none := by
  cases r with
  | xdgSurface surface toplevel => exact absurd rfl hxdgSurface
  | toplevel t => exact absurd rfl htoplevel
  | _ => rfl

private theorem Role.link_forInterface (name : String) : (Role.forInterface name).link = Option.none := by
  unfold Role.forInterface
  split
  · rfl
  split
  · rfl
  split
  · rfl
  split
  · rfl
  split
  · rfl
  split <;> rfl

namespace State

variable {s s' t : State F}

def link (s : State F) (id : Id) : Option Link :=
  (s.role id).bind Role.link

private theorem link_boundRole (iface : String) (name : Nat) : (boundRole iface name).link = Option.none := by
  unfold boundRole
  split
  · rfl
  · exact Role.link_forInterface iface

/-- Every object records of windows what it did. -/
def SameLinks (s s' : State F) : Prop :=
  ∀ id, s'.link id = s.link id

theorem SameLinks.refl (s : State F) : SameLinks s s :=
  fun _ => rfl

theorem SameLinks.trans (h : SameLinks s t) (h' : SameLinks t s') : SameLinks s s' :=
  fun id => (h' id).trans (h id)

theorem SameLinks.of_objects (h : s'.objects = s.objects) : SameLinks s s' := by
  intro id
  rw [link, role, obj, h]
  rfl

theorem SameLinks.adjustRole (s : State F) (id : Id) {f : Role → Role} (hf : ∀ r, (f r).link = r.link) :
    SameLinks s (s.adjustRole id f) := by
  intro j
  unfold link
  rw [role_adjustRole]
  split
  · cases s.role j with
    | none => rfl
    | some r => exact hf r
  · rfl

/-- An object that records nothing of windows, and does not then. -/
theorem SameLinks.adjustRole_of_none {id : Id} (hnone : s.link id = none) {role : Role} (hrole : role.link = none) :
    SameLinks s (s.adjustRole id fun _ => role) := by
  intro j
  unfold link at hnone ⊢
  rw [role_adjustRole]
  split
  · rename_i hj
    rw [hj, hnone]
    cases s.role id with
    | none => rfl
    | some r => exact hrole
  · rfl

theorem SameLinks.of_alters {tags : List Tag} {N : Entry → Prop} (h : Alters tags N s s')
    (hxdgSurface : .xdgSurface ∉ tags) (htoplevel : .toplevel ∉ tags) : SameLinks s s' := by
  have hnone : ∀ {r : Role}, r.tag ∈ tags → r.link = none := by
    intro r hr
    apply Role.link_of_tag
    · rintro hsame
      exact hxdgSurface (hsame ▸ hr)
    · rintro hsame
      exact htoplevel (hsame ▸ hr)
  intro id
  unfold link
  have htag := h.tag id
  cases hr : s.role id with
  | none =>
      rw [hr, Option.map_none, Option.map_eq_none_iff] at htag
      rw [htag]
  | some r =>
      rw [hr] at htag
      obtain ⟨r', hr', hsame⟩ := Option.map_eq_some_iff.mp htag
      by_cases hmem : r.tag ∈ tags
      · rw [hr']
        exact (hnone (hsame ▸ hmem)).trans (hnone hmem).symm
      · rw [h.role id r hr hmem]

private theorem link_create (s : State F) (origin : Origin) (id j : Id) (iface : Interface) (version : Nat) (kind : Kind)
    (role : Role) :
    (s.create origin id iface version kind role).link j = if j = id then role.link else s.link j := by
  unfold link State.role
  rw [obj_create]
  split <;> rfl

private theorem link_of_none {id : Id} (h : s.obj id = none) : s.link id = none := by
  rw [link, role, h]
  rfl

theorem SameLinks.create {id : Id} (hnew : s.obj id = none) (origin : Origin) (iface : Interface) (version : Nat)
    (kind : Kind) {role : Role} (hrole : role.link = none) :
    SameLinks s (s.create origin id iface version kind role) := by
  intro j
  rw [link_create]
  split
  · rename_i hj
    rw [hrole, hj, link_of_none hnew]
  · rfl

private theorem link_destroy (s : State F) (id j : Id) :
    ((s.destroy id).deleteId id).link j = if j = id then none else s.link j := by
  unfold link role
  rw [obj_deleteId, obj_destroy]
  split <;> rfl

private theorem sameLinks_setPositioner (s : State F) (positioner : Id) (height : Int) :
    SameLinks s (s.setPositioner positioner height) :=
  SameLinks.of_objects (s.setPositioner_same positioner height).1

/-- Nothing that is recorded before a request is of windows. -/
theorem sameLinks_beforeRequest (s : State F) (sender : Id) (iface request : String) (args : List BridgeArg) :
    SameLinks s (s.beforeRequest E sender iface request args).1 := by
  have hsurface : ∀ (t : State F) id f, SameLinks t (t.adjustSurface id f) := by
    intro t id f
    apply SameLinks.adjustRole
    intro r
    cases r <;> rfl
  have hoffset : ∀ positioner height, SameLinks s (s.offsetPositioner positioner height) := by
    intro positioner height
    unfold offsetPositioner
    split
    · exact sameLinks_setPositioner s positioner height
    · exact SameLinks.refl s
  have hcommit : SameLinks s (s.commitSurface sender).1 := by
    unfold commitSurface
    split
    · exact hsurface _ _ _
    · exact SameLinks.refl s
  have hdestination : ∀ d, SameLinks s (s.setDestination sender d) := by
    intro d
    unfold setDestination
    split
    · exact hsurface _ _ _
    · exact SameLinks.refl s
  unfold beforeRequest
  split
  -- `wl_surface.attach` and `wl_surface.set_buffer_scale`
  case h_1 | h_2 => exact hsurface _ _ _
  -- `wl_surface.commit`
  case h_3 =>
    dsimp only
    split
    · exact hcommit.trans (SameLinks.of_objects rfl)
    · exact hcommit
  -- `wp_viewport.set_destination` and `wp_viewport.destroy`
  case h_4 | h_5 => exact hdestination _
  -- `xdg_surface.set_window_geometry`
  case h_7 =>
    dsimp only
    split
    · exact SameLinks.of_objects rfl
    · exact SameLinks.refl s
  -- `xdg_surface.get_popup` and `xdg_popup.reposition`
  case h_8 | h_9 => exact hoffset _ _
  -- `xdg_toplevel.set_title`
  case h_12 =>
    apply SameLinks.trans (t := s.adjustFrame sender _)
    · exact SameLinks.of_objects rfl
    · apply SameLinks.adjustRole
      intro r
      cases r <;> rfl
  -- `xdg_toplevel.destroy`
  case h_15 => exact SameLinks.of_objects rfl
  -- Any other.
  case h_16 => exact SameLinks.refl s
  all_goals
    apply SameLinks.adjustRole
    intro r
    cases r <;> rfl

private theorem sameLinks_pass (s : State F) (up sent : Option ObjectId) (request : String) (args : List UpstreamArg) :
    SameLinks s (s.pass up sent request args) := by
  unfold pass
  split <;> exact SameLinks.refl s

/-- An object that a request creates records nothing yet. -/
theorem sameLinks_createChild {child : Option (Id × String)}
    (hnew : ∀ id name, child = some (id, name) → s.obj id = none) (version : Nat) (sent : Option ObjectId) :
    SameLinks s (s.createChild E child version sent) := by
  unfold createChild
  split
  · exact SameLinks.refl s
  · rename_i id name
    dsimp only
    split
    · exact SameLinks.create (hnew id name rfl) .bridge _ _ _ (Role.link_forInterface _)
    · exact SameLinks.create (hnew id name rfl) .bridge _ _ _ rfl

/-- An event of one new object. -/
theorem receive_newId {desc : MessageDesc} {version : Nat} {alive : ObjectId → Bool} {args : List UpstreamArg}
    (hargs : args.map Arg.isNewId = [true]) {input : Incoming}
    (hinput : (s.receive E desc version alive args).2 = some input) : uint input.args 0 = s.nextServerId := by
  obtain ⟨a, rfl, ha⟩ := List.map_eq_singleton_iff.mp hargs
  cases a with
  | newId up =>
      unfold receive at hinput
      split at hinput
      · cases hinput
      · dsimp only at hinput
        split at hinput
        · cases hinput
          rfl
        · cases hinput
  | _ => cases ha

private theorem afterRequest_eq_xdgSurface {sender surface : Id} {iface request : String} {args : List BridgeArg}
    (h : s.afterRequest E sender iface request args = .xdgSurface surface) :
    iface = "xdg_wm_base" ∧ request = "get_xdg_surface" ∧ surface = uint args 1 := by
  unfold afterRequest at h
  split at h
  -- `xdg_wm_base.get_xdg_surface`
  case h_4 =>
    cases h
    exact ⟨rfl, rfl, rfl⟩
  all_goals cases h

private theorem afterRequest_eq_toplevel {sender : Id} {iface request : String} {args : List BridgeArg}
    (h : s.afterRequest E sender iface request args = .toplevel) :
    iface = "xdg_surface" ∧ request = "get_toplevel" := by
  unfold afterRequest at h
  split at h
  -- `xdg_surface.get_toplevel`
  case h_6 => exact ⟨rfl, rfl⟩
  all_goals cases h

end State

/-! ## Section 2: A Window -/

/-- The ids of a window's objects. -/
structure Win where
  surface : Id
  xdgSurface : Id
  toplevel : Id
  deriving DecidableEq, Repr

/-- The objects of a window record each other, and no other object does. -/
structure Win.Linked (W : Win) (s : State F) : Prop where
  xdgSurface : s.link W.xdgSurface = some (.xdgSurface W.surface (some W.toplevel))
  toplevel : s.link W.toplevel = some (.toplevel W.xdgSurface)
  ofSurface : ∀ id t, s.link id = some (.xdgSurface W.surface t) → id = W.xdgSurface
  ofXdgSurface : ∀ id, s.link id = some (.toplevel W.xdgSurface) → id = W.toplevel
  ofToplevel : ∀ id surface, s.link id = some (.xdgSurface surface (some W.toplevel)) → id = W.xdgSurface

/-- What the surroundings promise of a window: no other object is made for it, requests on it go out,
and messages are what the protocols have them to be. -/
def Win.Alone (W : Win) (s : State F) : Action → Prop
  | .request m answer => ∀ o ∈ s.obj m.sender, ∀ desc ∈ o.iface.requests[m.opcode]?,
      (o.iface.name = "xdg_wm_base" → desc.name = "get_xdg_surface" → uint m.args 1 ≠ W.surface) ∧
      (o.iface.name = "xdg_surface" → desc.name = "get_toplevel" → m.sender ≠ W.xdgSurface) ∧
      (m.sender = W.surface ∨ m.sender = W.xdgSurface → answer.sent.isSome) ∧
      (o.iface.name = "xdg_surface" → desc.name = "set_window_geometry" →
        desc.signature = [.int, .int, .int, .int]) ∧
      (o.iface.name = "wl_surface" → desc.name = "commit" → desc.signature = []) ∧
      (o.iface.name = "xdg_toplevel" → desc.name = "destroy" → desc.isDestructor)
  | .event e => ∀ x ∈ s.receiver e, x.2.1.iface.name = "zwp_linux_buffer_params_v1" →
      x.2.2.name = "created" → e.args.map Arg.isNewId = [true]
  | _ => True

instance (W : Win) (s : State F) : (a : Action) → Decidable (W.Alone s a)
  | .request m answer => inferInstanceAs (Decidable (∀ o ∈ s.obj m.sender, ∀ desc ∈ o.iface.requests[m.opcode]?,
      (o.iface.name = "xdg_wm_base" → desc.name = "get_xdg_surface" → uint m.args 1 ≠ W.surface) ∧
      (o.iface.name = "xdg_surface" → desc.name = "get_toplevel" → m.sender ≠ W.xdgSurface) ∧
      (m.sender = W.surface ∨ m.sender = W.xdgSurface → answer.sent.isSome) ∧
      (o.iface.name = "xdg_surface" → desc.name = "set_window_geometry" →
        desc.signature = [.int, .int, .int, .int]) ∧
      (o.iface.name = "wl_surface" → desc.name = "commit" → desc.signature = []) ∧
      (o.iface.name = "xdg_toplevel" → desc.name = "destroy" → desc.isDestructor)))
  | .event e => inferInstanceAs (Decidable (∀ x ∈ s.receiver e,
      x.2.1.iface.name = "zwp_linux_buffer_params_v1" → x.2.2.name = "created" →
        e.args.map Arg.isNewId = [true]))
  | .setOutput _ _ | .close _ => isTrue trivial

namespace Win.Linked

variable {W : Win} {s s' t : State F}

theorem of_same (h : W.Linked s) (hsame : s.SameLinks s') : W.Linked s' := by
  refine ⟨?_, ?_, fun id t hid => ?_, fun id hid => ?_, fun id surface hid => ?_⟩
  · rw [hsame]
    exact h.xdgSurface
  · rw [hsame]
    exact h.toplevel
  · rw [hsame] at hid
    exact h.ofSurface id t hid
  · rw [hsame] at hid
    exact h.ofXdgSurface id hid
  · rw [hsame] at hid
    exact h.ofToplevel id surface hid

/-- Another object goes. -/
theorem destroy (h : W.Linked s) {id : Id} (hxdgSurface : W.xdgSurface ≠ id) (htoplevel : W.toplevel ≠ id) :
    W.Linked ((s.destroy id).deleteId id) := by
  have hold : ∀ {j : Id} {l : Link}, ((s.destroy id).deleteId id).link j = some l → s.link j = some l := by
    intro j l hj
    rw [State.link_destroy] at hj
    split at hj
    · cases hj
    · exact hj
  refine ⟨?_, ?_, fun j t hj => h.ofSurface j t (hold hj), fun j hj => h.ofXdgSurface j (hold hj),
    fun j surface hj => h.ofToplevel j surface (hold hj)⟩
  · rw [State.link_destroy, if_neg hxdgSurface]
    exact h.xdgSurface
  · rw [State.link_destroy, if_neg htoplevel]
    exact h.toplevel

/-- An object that records nothing is made for another window. -/
theorem setChildRole (h : W.Linked s) {child : Option Id} {role : Role} (hchild : ∀ c ∈ child, s.link c = none)
    (hsurface : ∀ t, role.link ≠ some (.xdgSurface W.surface t))
    (hxdgSurface : role.link ≠ some (.toplevel W.xdgSurface))
    (htoplevel : ∀ surface, role.link ≠ some (.xdgSurface surface (some W.toplevel))) :
    W.Linked (s.setChildRole child role) := by
  cases child with
  | none => exact h
  | some c =>
      have hc := hchild c rfl
      have hlink : ∀ j, (s.setChildRole (some c) role).link j = s.link j ∨
          j = c ∧ (s.setChildRole (some c) role).link j = role.link := by
        intro j
        unfold State.link
        show ((s.adjustRole c fun _ => role).role j).bind _ = _ ∨ _ ∧ ((s.adjustRole c fun _ => role).role j).bind _ = _
        rw [State.role_adjustRole]
        split
        · rename_i hj
          cases hr : s.role j with
          | none => exact .inl rfl
          | some r => exact .inr ⟨hj, rfl⟩
        · exact .inl rfl
      refine ⟨?_, ?_, fun j t hj => ?_, fun j hj => ?_, fun j surface hj => ?_⟩
      · rcases hlink W.xdgSurface with hsame | ⟨rfl, _⟩
        · exact hsame.trans h.xdgSurface
        · cases hc.symm.trans h.xdgSurface
      · rcases hlink W.toplevel with hsame | ⟨rfl, _⟩
        · exact hsame.trans h.toplevel
        · cases hc.symm.trans h.toplevel
      · rcases hlink j with hsame | ⟨_, hnew⟩
        · exact h.ofSurface j t (hsame.symm.trans hj)
        · exact absurd (hnew.symm.trans hj) (hsurface t)
      · rcases hlink j with hsame | ⟨_, hnew⟩
        · exact h.ofXdgSurface j (hsame.symm.trans hj)
        · exact absurd (hnew.symm.trans hj) hxdgSurface
      · rcases hlink j with hsame | ⟨_, hnew⟩
        · exact h.ofToplevel j surface (hsame.symm.trans hj)
        · exact absurd (hnew.symm.trans hj) (htoplevel surface)

/-- Another `xdg_surface` gets a toplevel. -/
theorem adjustXdgSurface (h : W.Linked s) {sender : Id} (hsender : sender ≠ W.xdgSurface) {toplevel : Ref}
    (htoplevel : toplevel.id ≠ W.toplevel) :
    W.Linked (s.adjustRole sender fun
      | .xdgSurface surface _ => .xdgSurface surface (some toplevel)
      | r => r) := by
  have hlink : ∀ j, (s.adjustRole sender fun
        | .xdgSurface surface _ => .xdgSurface surface (some toplevel)
        | r => r).link j = s.link j ∨
      j = sender ∧ ∃ surface t, s.link j = some (.xdgSurface surface t) ∧
        (s.adjustRole sender fun
          | .xdgSurface surface _ => .xdgSurface surface (some toplevel)
          | r => r).link j = some (.xdgSurface surface (some toplevel.id)) := by
    intro j
    unfold State.link
    rw [State.role_adjustRole]
    split
    · rename_i hj
      cases hr : s.role j with
      | none => exact .inl rfl
      | some r =>
          cases r with
          | xdgSurface surface t => exact .inr ⟨hj, _, _, rfl, rfl⟩
          | _ => exact .inl rfl
    · exact .inl rfl
  refine ⟨?_, ?_, fun j t hj => ?_, fun j hj => ?_, fun j surface hj => ?_⟩
  · rcases hlink W.xdgSurface with hsame | ⟨hj, _⟩
    · exact hsame.trans h.xdgSurface
    · exact absurd hj.symm hsender
  · rcases hlink W.toplevel with hsame | ⟨_, _, _, hold, _⟩
    · exact hsame.trans h.toplevel
    · cases hold.symm.trans h.toplevel
  · rcases hlink j with hsame | ⟨_, surface, told, hold, hnew⟩
    · exact h.ofSurface j t (hsame.symm.trans hj)
    · obtain ⟨rfl, _⟩ := Link.xdgSurface.inj (Option.some.inj (hnew.symm.trans hj))
      exact h.ofSurface j told hold
  · rcases hlink j with hsame | ⟨_, _, _, _, hnew⟩
    · exact h.ofXdgSurface j (hsame.symm.trans hj)
    · cases hnew.symm.trans hj
  · rcases hlink j with hsame | ⟨_, _, _, _, hnew⟩
    · exact h.ofToplevel j surface (hsame.symm.trans hj)
    · obtain ⟨_, hsame⟩ := Link.xdgSurface.inj (Option.some.inj (hnew.symm.trans hj))
      exact absurd (Option.some.inj hsame) htoplevel

/-- What a request creates is recorded, which is not for this window. -/
theorem apply (h : W.Linked s) (sender : Id) (child : Option Id) (after : State.After)
    (hchild : ∀ c ∈ child, s.link c = none) (hsurface : ∀ surface, after = .xdgSurface surface → surface ≠ W.surface)
    (htoplevel : after = .toplevel → sender ≠ W.xdgSurface) : W.Linked (s.apply sender child after) := by
  have hrestored : ∀ positioner height, s.SameLinks (s.restorePositioner positioner height) := by
    intro positioner height
    unfold State.restorePositioner
    split
    · exact State.sameLinks_setPositioner s positioner 0
    · exact State.SameLinks.refl s
  cases after with
  | nothing => exact h
  | reposition positioner height => exact h.of_same (hrestored positioner height)
  | buffer _ _ | viewport _ | xdgOutput _ =>
      exact h.setChildRole hchild (fun _ hlink => by cases hlink) (fun hlink => by cases hlink)
        fun _ hlink => by cases hlink
  | popup parent positioner height =>
      apply (h.of_same (hrestored positioner height)).setChildRole _ (fun _ hlink => by cases hlink)
        (fun hlink => by cases hlink) fun _ hlink => by cases hlink
      intro c hc
      rw [hrestored]
      exact hchild c hc
  | xdgSurface surface =>
      apply h.setChildRole hchild _ (fun hlink => by cases hlink) fun _ hlink => by cases hlink
      intro t hlink
      obtain ⟨hsame, _⟩ := Link.xdgSurface.inj (Option.some.inj hlink)
      exact hsurface surface rfl hsame
  | toplevel =>
      have hsender := htoplevel rfl
      cases child with
      | none => exact h
      | some c =>
          have hc : (s.ref c).id ≠ W.toplevel := by
            rintro hsame
            have hnone := hchild c rfl
            rw [show c = W.toplevel from hsame] at hnone
            cases hnone.symm.trans h.toplevel
          have hadjusted := h.adjustXdgSurface hsender hc
          suffices hset : W.Linked (State.setChildRole _ (some c) _) from hset
          apply hadjusted.setChildRole
          · intro c' hc'
            have hnone := hchild c' hc'
            unfold State.link at hnone ⊢
            rw [State.role_adjustRole]
            split
            · cases hr : s.role c' with
              | none => rfl
              | some r =>
                  rw [hr] at hnone
                  cases r with
                  | xdgSurface surface t => cases hnone
                  | _ => exact hnone
            · exact hnone
          · exact fun _ hlink => by cases hlink
          · intro hlink
            exact hsender (Link.toplevel.inj (Option.some.inj hlink))
          · exact fun _ hlink => by cases hlink

/-- The end of an object, when the window's are still there. -/
theorem ends (h : W.Linked s) {id : Id} (he : State.Ends id s s') (hxdgSurface : (s'.obj W.xdgSurface).isSome)
    (htoplevel : (s'.obj W.toplevel).isSome) : W.Linked s' := by
  cases he with
  | nothing hs =>
      rw [hs]
      exact h
  | gone _ hs =>
      subst hs
      have hne : ∀ j, (((s.destroy id).deleteId id).obj j).isSome → j ≠ id := by
        rintro j hj rfl
        rw [State.obj_deleteId, State.obj_destroy, if_pos rfl] at hj
        cases hj
      exact h.destroy (hne _ hxdgSurface) (hne _ htoplevel)

theorem complete (h : W.Linked s) {obj : Obj} {desc : MessageDesc} {up : Option ObjectId} {sender : Id}
    {answer : Answer} {after : State.After} {out : State.Outgoing}
    (hnew : ∀ id name, out.child = some (id, name) → s.obj id = none)
    (hsurface : ∀ surface, after = .xdgSurface surface → surface ≠ W.surface)
    (htoplevel : after = .toplevel → sender ≠ W.xdgSurface)
    (hlives : ∀ id, id = W.xdgSurface ∨ id = W.toplevel →
      ((s.complete E obj desc up sender answer after out).obj id).isSome) :
    W.Linked (s.complete E obj desc up sender answer after out) := by
  unfold State.complete at hlives ⊢
  dsimp only at hlives ⊢
  generalize (if out.dead then none else up.bind fun _ => answer.sent) = sent at hlives ⊢
  have hpass := h.of_same (s.sameLinks_pass up sent desc.name out.args)
  have hobj : ∀ id, (s.pass up sent desc.name out.args).obj id = s.obj id := by
    intro id
    unfold State.pass
    split <;> rfl
  have hcreated := State.sameLinks_createChild (E := E) (s := s.pass up sent desc.name out.args)
    (fun id name hchild => (hobj id).trans (hnew id name hchild)) obj.version sent
  have happlied := (hpass.of_same hcreated).apply sender (out.child.map Prod.fst) after (fun c hc => by
      obtain ⟨child, hchild, rfl⟩ := Option.map_eq_some_iff.mp hc
      rw [hcreated]
      exact State.link_of_none ((hobj _).trans (hnew child.1 child.2 hchild))) hsurface htoplevel
  split at hlives
  · rename_i hgoes
    rw [if_pos hgoes]
    have hne : ∀ j, j = W.xdgSurface ∨ j = W.toplevel → j ≠ sender := by
      intro j hj hsame
      have hsome := hlives j hj
      rw [State.obj_deleteId, State.obj_destroy, if_pos hsame] at hsome
      cases hsome
    exact happlied.destroy (hne _ (.inl rfl)) (hne _ (.inr rfl))
  · rename_i hstays
    rw [if_neg hstays]
    exact happlied

theorem request (h : W.Linked s) {m : Request} {answer : Answer} (halone : W.Alone s (.request m answer))
    (hs : s.request E m answer = .ok s') (hlives : ∀ id, id = W.xdgSurface ∨ id = W.toplevel → (s'.obj id).isSome) :
    W.Linked s' := by
  obtain ⟨o, desc, ho, hdesc, _, _, hcases⟩ := State.request_cases hs
  obtain ⟨hsurface, htoplevel, _⟩ := halone o ho desc hdesc
  have hgone : ∀ {t : State F}, W.Linked t → s' = (t.destroy m.sender).deleteId m.sender → W.Linked s' := by
    intro t ht hs'
    have hne : ∀ j, j = W.xdgSurface ∨ j = W.toplevel → j ≠ m.sender := by
      intro j hj hsame
      have hsome := hlives j hj
      rw [hs', State.obj_deleteId, State.obj_destroy, if_pos hsame] at hsome
      cases hsome
    rw [hs']
    exact ht.destroy (hne _ (.inl rfl)) (hne _ (.inr rfl))
  have hcreate : ∀ {id : Id} {iface : Interface} {version : Nat} {kind : Kind} {role : Role},
      s.checkNewId id = .ok () → role.link = none → W.Linked (s.create .bridge id iface version kind role) :=
    fun hnew hrole => h.of_same (State.SameLinks.create (State.checkNewId_eq_ok.mp hnew).2.2 _ _ _ _ hrole)
  have hremoved : ∀ toplevel, W.Linked (s.removeFrame toplevel) := fun toplevel =>
    h.of_same (State.SameLinks.of_alters (s.alters_removeFrame toplevel) (by simp) (by simp))
  have hnote : ∀ {t : State F} (e : Entry), W.Linked t → W.Linked (t.note e) :=
    fun e ht => ht.of_same (State.SameLinks.of_objects rfl)
  rcases hcases with ⟨_, hs⟩ | ⟨_, hs⟩ | ⟨toplevel, _, hs⟩ | ⟨up, _, ⟨_, hs⟩ | ⟨_, hs⟩⟩
  -- The display
  · obtain ⟨child, name, up, _, hnew, _, hs⟩ := State.displayRequest_cases hs
    have hcreated : W.Linked (s.createForwarded child (E.table name) 1 up (Role.forInterface (E.table name).name)) :=
      (hcreate hnew (Role.link_forInterface _)).of_same (State.SameLinks.of_objects rfl)
    rcases hs with rfl | ⟨args, rfl⟩
    · exact hcreated
    · exact hnote _ hcreated
  -- The decoration manager
  · rcases State.managerRequest_cases hs with ⟨_, hs⟩ | ⟨_, id, toplevel, hnew, rfl⟩
    · exact hgone h hs
    · exact hcreate hnew rfl
  -- A decoration
  · rcases State.decorationRequest_cases hs with
      ⟨_, hs⟩ | ⟨_, ⟨t, mode, ht, rfl⟩ | ⟨mode, _, rfl⟩ | ⟨mode, rfl⟩⟩
    · exact hgone (hremoved _) hs
    · apply hnote
      exact h.of_same (State.SameLinks.of_alters (State.alters_addFrame ht) (by simp) (by simp))
    · exact hnote _ h
    · exact hnote _ (hremoved _)
  -- The registry
  · obtain ⟨child, _, hnew, ⟨version, rfl⟩ | ⟨global, version, up', name, _, rfl⟩⟩ := State.bind_cases hs
    · exact hcreate hnew rfl
    · exact (hcreate hnew (State.link_boundRole _ _)).of_same (State.SameLinks.of_objects rfl)
  -- A forwarded object
  · have hbefore := h.of_same (s.sameLinks_beforeRequest (E := E) m.sender o.iface.name desc.name m.args)
    have hquiet := s.quiet_beforeRequest (E := E) m.sender o.iface.name desc.name m.args
    rcases State.forward_cases hs with ⟨_, rfl⟩ | ⟨out, _, htranslate, rfl⟩
    · exact hbefore
    · apply hbefore.complete _ _ _ hlives
      · intro id name hchild
        have hnew := (State.newId_of_translate htranslate hchild).2
        exact (State.checkNewId_eq_ok.mp hnew).2.2
      · intro surface hafter
        obtain ⟨hi, hn, rfl⟩ := State.afterRequest_eq_xdgSurface hafter
        rw [hi, hn]
        exact hsurface hi hn
      · intro hafter
        obtain ⟨hi, hn⟩ := State.afterRequest_eq_toplevel hafter
        exact htoplevel hi hn

theorem event (h : W.Linked s) (hkept : s.IdsKept) {e : Event} (halone : W.Alone s (.event e))
    (hlives : ∀ id, id = W.xdgSurface ∨ id = W.toplevel → ((s.event E e).obj id).isSome) :
    W.Linked (s.event E e) := by
  rcases s.event_cases (E := E) e with ⟨_, hs⟩ | ⟨bridge, o, desc, ht, hevent⟩
  -- No object takes the event.
  · rw [hs]
    exact h
  have hreceived : s.SameLinks (s.receive E desc o.version e.alive e.args).1 := by
    have hboth : (s.receive E desc o.version e.alive e.args).1.IdsKept ∧
        s.SameLinks (s.receive E desc o.version e.alive e.args).1 := by
      apply State.receive_induction (P := fun t => t.IdsKept ∧ s.SameLinks t) _ _ e.args s
        ⟨hkept, State.SameLinks.refl s⟩
      · intro t iface up ⟨hids, hsame⟩
        refine ⟨hids.create_compositor _ _ _ _, hsame.trans ?_⟩
        exact State.SameLinks.create (s := { t with nextServerId := t.nextServerId + 1 }) (hids.unused _ le_rfl)
          _ _ _ _ (Role.link_forInterface _)
      · intro t ⟨hids, hsame⟩
        exact ⟨hids.failed, hsame⟩
    exact hboth.2
  rcases hevent with ⟨_, hs⟩ | ⟨input, hinput, hs⟩
  -- It is dropped while it is read.
  · rw [hs]
    exact h.of_same hreceived
  have hsome := State.isSome_of_upstream (hkept.receive_upstream (E := E) ht)
  have hd := State.delivered_deliver (E := E) hsome o.iface desc e input
  rw [← hs] at hd
  obtain ⟨data, t, hends, hs'⟩ := hd.parts
  have hbefore : W.Linked ((s.receive E desc o.version e.alive e.args).1.beforeEvent E bridge o.iface.name desc.name
      input.hidden input.args).1 := by
    by_cases hcreated : o.iface.name = "zwp_linux_buffer_params_v1" ∧ desc.name = "created"
    · -- The new object becomes a buffer.
      have hargs := halone _ (State.receiver_eq_some.mpr ht) hcreated.1 hcreated.2
      have hnone : (s.receive E desc o.version e.alive e.args).1.link (uint input.args 0) = none := by
        rw [hreceived, State.receive_newId hargs hinput]
        exact State.link_of_none (hkept.unused _ le_rfl)
      rw [hcreated.1, hcreated.2, State.beforeEvent_created]
      split
      · dsimp only
        apply (h.of_same hreceived).of_same
        refine State.SameLinks.trans ?_ (State.SameLinks.of_alters (State.alters_focus _ _ _ _ _ _
          (N := fun _ => False)) (by simp) (by simp))
        exact State.SameLinks.adjustRole_of_none hnone rfl
      · exact h.of_same hreceived
    · exact (h.of_same hreceived).of_same (State.SameLinks.of_alters
        (State.alters_beforeEvent_of_not_created _ bridge input.hidden input.args hcreated) (by simp) (by simp))
  have hdata : W.Linked t := by
    refine ends ?_ hends ?_ ?_
    · split
      · exact hbefore.of_same (State.SameLinks.of_objects rfl)
      · exact hbefore
    · have hsome := hlives W.xdgSurface (.inl rfl)
      rw [hs'] at hsome
      exact hsome
    · have hsome := hlives W.toplevel (.inr rfl)
      rw [hs'] at hsome
      exact hsome
  rw [hs']
  exact hdata.of_same (State.SameLinks.of_objects rfl)

end Win.Linked

/-! ## Section 3: Title Bars -/

/-- What a title bar has of its window: the surface it is around, the geometry the bridge asked for since
it is there, the size of the window, and the geometry that was last set. -/
structure FrameCore where
  surface : Id
  asked : Option Geometry
  content : Option (ℕ+ × ℕ+)
  set : Option Geometry

variable {A : Type} {L : Library A}

def Frame.core (f : Frame (Window A)) : FrameCore where
  surface := f.surface.id
  asked := f.bridgeGeometry
  content := f.drawn.content
  set := f.drawn.geometry

namespace State

variable {E : Setting (Window A)} {s s' t : State (Window A)}

def frameCore (s : State (Window A)) (toplevel : Id) : Option FrameCore :=
  (s.frames.lookup toplevel).map Frame.core

/-- The same title bars, though they may look different. -/
def SameFrames (s s' : State (Window A)) : Prop :=
  ∀ toplevel, s'.frameCore toplevel = s.frameCore toplevel

theorem SameFrames.refl (s : State (Window A)) : SameFrames s s :=
  fun _ => rfl

theorem SameFrames.trans (h : SameFrames s t) (h' : SameFrames t s') : SameFrames s s' :=
  fun toplevel => (h' toplevel).trans (h toplevel)

theorem SameFrames.of_frames (h : s'.frames = s.frames) : SameFrames s s' := by
  intro toplevel
  rw [frameCore, h]
  rfl

theorem frameCore_adjustFrame (s : State (Window A)) (toplevel t : Id) (f : Frame (Window A) → Frame (Window A)) :
    (s.adjustFrame toplevel f).frameCore t =
      if t = toplevel then (s.frames.lookup t).map fun x => (f x).core else s.frameCore t := by
  unfold frameCore adjustFrame
  rw [Table.lookup_adjust]
  split
  · rw [Option.map_map]
    rfl
  · rfl

theorem SameFrames.adjustFrame (s : State (Window A)) (toplevel : Id) {f : Frame (Window A) → Frame (Window A)}
    (hf : ∀ x, s.frames.lookup toplevel = some x → (f x).core = x.core) :
    SameFrames s (s.adjustFrame toplevel f) := by
  intro t
  rw [frameCore_adjustFrame]
  split
  · rename_i ht
    subst ht
    rw [frameCore]
    cases hframe : s.frames.lookup t with
    | none => rfl
    | some x => exact congrArg some (hf x hframe)
  · rfl

/-- What changes how a title bar looks. -/
theorem core_redrawn (f : Frame (Window A)) {w : Window A} (hcontent : w.content = f.drawn.content)
    (hgeometry : w.geometry = f.drawn.geometry) : ({ f with drawn := w } : Frame (Window A)).core = f.core := by
  unfold Frame.core
  dsimp only
  rw [hcontent, hgeometry]

private theorem sameFrames_rescale (hdraws : E.drawing = L.drawing) (s : State (Window A)) (affected : Id → Bool) :
    SameFrames s (s.rescale E affected) := by
  unfold rescale
  generalize ((s.frames.entries.filter fun e => affected e.2.surface.id).map fun e =>
    (e.1, s.surfaceScale e.2.surface.id)) = changes
  induction changes generalizing s with
  | nil => exact SameFrames.refl s
  | cons change changes ih =>
      rw [List.foldl_cons]
      refine SameFrames.trans (SameFrames.adjustFrame s change.1 fun f _ => ?_) (ih _)
      rw [hdraws]
      exact core_redrawn f rfl rfl

private theorem redraw_same (w : Window A) : (w.redraw L).content = w.content ∧ (w.redraw L).geometry = w.geometry := by
  unfold Window.redraw Window.drawn
  split
  · split <;> exact ⟨rfl, rfl⟩
  · exact ⟨rfl, rfl⟩

private theorem configure_same (states : List UInt8) (width height : Int) (w : Window A) :
    (w.configure L states width height).1.content = w.content ∧
      (w.configure L states width height).1.geometry = w.geometry := by
  unfold Window.configure
  dsimp only
  split
  · split <;> exact ⟨rfl, rfl⟩
  · exact ⟨rfl, rfl⟩

private theorem frames_setPositioner (s : State (Window A)) (positioner : Id) (height : Int) :
    (s.setPositioner positioner height).frames = s.frames :=
  (s.setPositioner_same positioner height).2.2

/-- Before a request that says nothing of a window's geometry. -/
theorem sameFrames_beforeRequest (hdraws : E.drawing = L.drawing) (s : State (Window A)) (sender : Id)
    {iface request : String} (args : List BridgeArg) (hcommit : ¬(iface = "wl_surface" ∧ request = "commit"))
    (hgeometry : ¬(iface = "xdg_surface" ∧ request = "set_window_geometry"))
    (hdestroy : ¬(iface = "xdg_toplevel" ∧ request = "destroy")) :
    SameFrames s (s.beforeRequest E sender iface request args).1 := by
  have hoffset : ∀ positioner height, SameFrames s (s.offsetPositioner positioner height) := by
    intro positioner height
    unfold offsetPositioner
    split
    · exact SameFrames.of_frames (s.frames_setPositioner positioner height)
    · exact SameFrames.refl s
  have hdestination : ∀ d, SameFrames s (s.setDestination sender d) := by
    intro d
    unfold setDestination
    split
    · exact SameFrames.of_frames rfl
    · exact SameFrames.refl s
  unfold beforeRequest
  split
  -- `wl_surface.commit`
  case h_3 => exact absurd ⟨rfl, rfl⟩ hcommit
  -- `wp_viewport.set_destination` and `wp_viewport.destroy`
  case h_4 | h_5 => exact hdestination _
  -- `xdg_surface.set_window_geometry`
  case h_7 => exact absurd ⟨rfl, rfl⟩ hgeometry
  -- `xdg_surface.get_popup` and `xdg_popup.reposition`
  case h_8 | h_9 => exact hoffset _ _
  -- `xdg_toplevel.set_title`
  case h_12 =>
    dsimp only
    refine SameFrames.trans (SameFrames.adjustFrame s sender fun f _ => ?_) (SameFrames.of_frames rfl)
    rw [hdraws]
    obtain ⟨hcontent, hset⟩ := redraw_same (L := L) (f.drawn.setTitle L _)
    exact core_redrawn f hcontent hset
  -- `xdg_toplevel.destroy`
  case h_15 => exact absurd ⟨rfl, rfl⟩ hdestroy
  all_goals exact SameFrames.of_frames rfl

theorem frames_complete (s : State (Window A)) (obj : Obj) (desc : MessageDesc) (up : Option ObjectId) (sender : Id)
    (answer : Answer) (after : After) (out : Outgoing) :
    (s.complete E obj desc up sender answer after out).frames = s.frames := by
  unfold State.complete
  dsimp only
  generalize (if out.dead then none else up.bind fun _ => answer.sent) = sent
  have hpass : (s.pass up sent desc.name out.args).frames = s.frames := by
    unfold pass
    split <;> rfl
  have hcreated : ((s.pass up sent desc.name out.args).createChild E out.child obj.version sent).frames = s.frames := by
    unfold createChild
    split
    · exact hpass
    · dsimp only
      split <;> exact hpass
  have happly : ∀ (t : State (Window A)) child, (t.apply sender child after).frames = t.frames := by
    intro t child
    have hrole : ∀ (t : State (Window A)) role, (t.setChildRole child role).frames = t.frames := by
      intro t role
      unfold setChildRole
      split <;> rfl
    have hrestored : ∀ positioner height, (t.restorePositioner positioner height).frames = t.frames := by
      intro positioner height
      unfold restorePositioner
      split
      · exact frames_setPositioner t positioner 0
      · rfl
    cases after with
    | nothing => rfl
    | reposition positioner height => exact hrestored positioner height
    | popup parent positioner height => exact (hrole _ _).trans (hrestored positioner height)
    | toplevel => cases child <;> rfl
    | buffer _ _ | viewport _ | xdgOutput _ | xdgSurface _ => exact hrole _ _
  split
  · unfold deleteId
    split <;> exact (happly _ _).trans hcreated
  · exact (happly _ _).trans hcreated

theorem frameCore_removeFrame (s : State (Window A)) (toplevel t : Id) :
    (s.removeFrame toplevel).frameCore t = if t = toplevel then none else s.frameCore t := by
  have herased : ∀ u : State (Window A), u.frames = s.frames.erase toplevel →
      u.frameCore t = if t = toplevel then none else s.frameCore t := by
    intro u hu
    rw [frameCore, hu]
    split
    · rename_i ht
      rw [ht, AList.lookup_erase]
      rfl
    · rename_i ht
      rw [AList.lookup_erase_ne ht]
      rfl
  unfold removeFrame
  split
  · dsimp only
    split
    · exact herased _ (resendSizeLimits_same _ _ _ _ _).2.2
    · exact herased _ rfl
  · rename_i hnone
    split
    · rename_i ht
      rw [ht, frameCore, Option.not_isSome_iff_eq_none.mp hnone]
      rfl
    · rfl

/-- A title bar that is added has nothing of its window but what it is of. -/
theorem frameCore_addFrame (hdraws : E.drawing = L.drawing) {toplevel : Id} {framed : Bool}
    (h : s.addFrame E toplevel framed = some s') :
    (s.frameCore toplevel).isSome ∧ s' = s ∨
      framed ∧ s.frameCore toplevel = none ∧ ∃ surface xdgSurface t, s.link toplevel = some (.toplevel xdgSurface) ∧
        s.link xdgSurface = some (.xdgSurface surface t) ∧
          s'.frameCore toplevel = some { surface := surface, asked := none, content := none, set := none } ∧
          ∀ t, t ≠ toplevel → s'.frameCore t = s.frameCore t := by
  unfold addFrame at h
  split at h
  -- The toplevel has a title bar already.
  · rename_i hsome
    cases h
    left
    refine ⟨?_, rfl⟩
    rw [frameCore, Option.isSome_map]
    exact hsome
  rename_i hnone
  have hcore : s.frameCore toplevel = none := by
    rw [frameCore, Option.not_isSome_iff_eq_none.mp hnone]
    rfl
  split at h
  · rename_i top htop
    split at h
    · rename_i surface t hxdg
      split at h
      · split at h
        · rename_i hframed
          cases h
          right
          have hlink : s.link toplevel = some (.toplevel top.xdgSurface.id) := by
            rw [link, htop]
            rfl
          have hlink' : s.link top.xdgSurface.id = some (.xdgSurface surface.id (t.map Ref.id)) := by
            rw [link, hxdg]
            rfl
          refine ⟨hframed, hcore, surface.id, top.xdgSurface.id, _, hlink, hlink', ?_, fun t' ht' => ?_⟩
          · rw [frameCore, (resendSizeLimits_same _ _ _ _ _).2.2, AList.lookup_insert]
            rw [hdraws]
            cases top.title <;> rfl
          · rw [frameCore, (resendSizeLimits_same _ _ _ _ _).2.2, AList.lookup_insert_ne ht']
            rfl
        · cases h
      · cases h
    · cases h
  · cases h

private theorem sameFrames_adjustEvent (hdraws : E.drawing = L.drawing) (s : State (Window A)) (bridge : Id)
    (iface event : String) (args : List BridgeArg) : SameFrames s (s.adjustEvent E bridge iface event args).1 := by
  unfold adjustEvent
  split
  -- `xdg_toplevel.configure`
  case h_1 =>
    split
    · rename_i f hframe
      apply SameFrames.adjustFrame
      intro x hx
      obtain rfl := Option.some.inj (hframe.symm.trans hx)
      rw [hdraws]
      obtain ⟨hcontent, hset⟩ := configure_same (L := L) _ (int args 0) (int args 1) f.drawn
      exact core_redrawn f hcontent hset
    · exact SameFrames.refl s
  -- `xdg_toplevel.wm_capabilities`
  case h_3 =>
    split
    · apply SameFrames.adjustFrame
      intro f _
      rw [hdraws]
      exact core_redrawn f rfl rfl
    · exact SameFrames.refl s
  -- `wl_surface.enter`, `wl_surface.leave`, `wl_surface.preferred_buffer_scale` and `wl_output.scale`
  case h_5 | h_6 | h_7 | h_13 =>
    dsimp only
    exact SameFrames.trans (SameFrames.of_frames rfl) (sameFrames_rescale hdraws _ _)
  -- `wl_output.done`
  case h_10 =>
    dsimp only
    split
    · exact SameFrames.of_frames (frames_tellMode _ _ _)
    · exact SameFrames.refl s
  -- `zxdg_output_v1.done`
  case h_11 =>
    split
    · dsimp only
      split
      · exact SameFrames.of_frames (frames_tellMode _ _ _)
      · exact SameFrames.refl s
    · exact SameFrames.refl s
  -- `zxdg_output_v1.logical_size`
  case h_12 =>
    split
    · exact SameFrames.of_frames rfl
    · exact SameFrames.refl s
  all_goals exact SameFrames.of_frames rfl

/-- Events change how title bars look, and nothing else of them. -/
theorem sameFrames_event (hdraws : E.drawing = L.drawing) (s : State (Window A)) (e : Event) :
    SameFrames s (s.event E e) := by
  have hfocus : ∀ (t : State (Window A)) bridge iface event hidden args,
      SameFrames t (t.focus bridge iface event hidden args).1 := fun t bridge iface event hidden args =>
    SameFrames.of_frames (frames_focus _ _ _ _ _ _)
  have hbefore : ∀ (t : State (Window A)) bridge iface event hidden args,
      SameFrames t (t.beforeEvent E bridge iface event hidden args).1 := by
    intro t bridge iface event hidden args
    unfold beforeEvent
    split
    · unfold advertise
      dsimp only
      split <;> exact SameFrames.of_frames rfl
    split
    · unfold withdraw
      dsimp only
      split <;> exact SameFrames.of_frames rfl
    split
    · dsimp only
      split
      · exact SameFrames.of_frames rfl
      · exact SameFrames.trans (SameFrames.of_frames rfl) (hfocus _ _ _ _ _ _)
    split
    · split
      · dsimp only
        exact SameFrames.trans (SameFrames.of_frames rfl) (hfocus _ _ _ _ _ _)
      · exact SameFrames.refl t
    · exact (sameFrames_adjustEvent hdraws _ _ _ _ _).trans (hfocus _ _ _ _ _ _)
  rcases s.event_cases (E := E) e with ⟨_, hs⟩ | ⟨bridge, o, desc, _, hevent⟩
  -- No object takes the event.
  · rw [hs]
    exact SameFrames.refl s
  have hreceived : SameFrames s (s.receive E desc o.version e.alive e.args).1 :=
    SameFrames.of_frames (receive_induction (P := fun t => t.frames = s.frames) (fun _ _ _ h => h) (fun _ h => h) _ _ rfl)
  rcases hevent with ⟨_, hs⟩ | ⟨input, _, hs⟩
  -- It is dropped while it is read.
  · rw [hs]
    exact hreceived
  · rw [hs]
    refine (hreceived.trans (hbefore _ bridge o.iface.name desc.name input.hidden input.args)).trans
      (SameFrames.of_frames ?_)
    unfold deliver deleteId
    dsimp only
    split <;> split <;> split <;> first | rfl | (split <;> rfl)

end State

end Psbox.Decorations
