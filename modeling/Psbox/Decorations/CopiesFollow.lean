import Psbox.Decorations.Copies
import Psbox.Decorations.Outputs

/-!
# Copies Follow

`State.Mirrors` through requests and events: a request that sets a limit or a placing, one that uses
a positioner, title bars that come and go, the states of a toplevel. What it takes of the surroundings
is in `Promised`, and what the limits of toplevels need besides in `LimitsStay`.
-/

namespace Psbox.Decorations

open Psbox.Foundations
open State (limitRequests positionerRequests)

variable {F : Type} {E : Setting F}

/-! ## Section 1: Requests -/

/-- The height that the positioner of a request is moved by while it goes out. -/
def State.After.shift : State.After → Id → Int
  | .popup _ positioner height | .reposition positioner height =>
      Function.update (fun _ => 0) positioner height
  | _ => fun _ => 0

namespace State

variable {s t : State F} {w : Nat → Own} {level level' : Id → Prop}

/-- What an object of some tag is, it was, or it is nothing that is tracked here. -/
theorem within_of_alters {tags : List Tag} {N : Entry → Prop} (h : Alters tags N s t)
    (htoplevel : .toplevel ∉ tags) (hpositioner : .positioner ∉ tags) {id : Id} {r' : Role}
    (hr' : t.role id = some r') : ∃ r, s.role id = some r ∧ r'.Within r := by
  by_cases htag : r'.tag ∈ tags
  · have hsome := congrArg Option.isSome (h.tag id)
    rw [hr'] at hsome
    obtain ⟨r, hr⟩ := Option.isSome_iff_exists.mp (by simpa using hsome.symm : (s.role id).isSome)
    refine ⟨r, hr, .of_tag r ?_ ?_⟩
    · rintro hsame
      exact htoplevel (hsame ▸ htag)
    · rintro hsame
      exact hpositioner (hsame ▸ htag)
  · exact ⟨r', h.of_role hr' htag, .refl r'⟩

private theorem within_adjustRole (id : Id) {f : Role → Role} (hf : ∀ r, (f r).Within r) {j : Id} {r' : Role}
    (hr' : (s.adjustRole id f).role j = some r') : ∃ r, s.role j = some r ∧ r'.Within r := by
  rw [role_adjustRole] at hr'
  split at hr'
  · obtain ⟨r, hr, rfl⟩ := Option.map_eq_some_iff.mp hr'
    exact ⟨r, hr, hf r⟩
  · exact ⟨r', hr', .refl r'⟩

/-- Before a request that neither sets a limit or a placing nor uses a positioner. -/
theorem beforeRequest_plain (sender : Id) {iface request : String} (args : List BridgeArg)
    (hset : request ∉ settingRequests iface) (hpopup : ¬(iface = "xdg_surface" ∧ request = "get_popup"))
    (hreposition : ¬(iface = "xdg_popup" ∧ request = "reposition")) :
    (∀ id r', (s.beforeRequest E sender iface request args).1.role id = some r' →
        ∃ r, s.role id = some r ∧ r'.Within r) ∧
      (s.beforeRequest E sender iface request args).1.log = s.log := by
  have hsurface : ∀ (t : State F) id f, (∀ j r', (t.adjustSurface id f).role j = some r' →
      ∃ r, t.role j = some r ∧ r'.Within r) ∧ (t.adjustSurface id f).log = t.log := fun t id f =>
    ⟨fun j r' => within_of_alters (alters_adjustSurface t id f (N := fun _ => False)) (by decide) (by decide),
      rfl⟩
  have hsame : ∀ {u : State F}, u.objects = s.objects → u.log = s.log →
      (∀ j r', u.role j = some r' → ∃ r, s.role j = some r ∧ r'.Within r) ∧ u.log = s.log := by
    intro u hobjects hlog
    refine ⟨fun j r' hr' => ⟨r', ?_, .refl r'⟩, hlog⟩
    rw [role, obj, hobjects] at hr'
    exact hr'
  unfold beforeRequest
  split
  -- `wl_surface.attach` and `wl_surface.set_buffer_scale`
  case h_1 | h_2 => exact hsurface _ _ _
  -- `wl_surface.commit`
  case h_3 =>
    have hcommit : (∀ j r', (s.commitSurface sender).1.role j = some r' →
        ∃ r, s.role j = some r ∧ r'.Within r) ∧ (s.commitSurface sender).1.log = s.log := by
      unfold commitSurface
      split
      · exact hsurface _ _ _
      · exact hsame rfl rfl
    dsimp only
    split <;> exact hcommit
  -- `wp_viewport.set_destination` and `wp_viewport.destroy`
  case h_4 | h_5 =>
    dsimp only
    unfold setDestination
    split
    · exact hsurface _ _ _
    · exact hsame rfl rfl
  -- `zwp_linux_buffer_params_v1.create`
  case h_6 =>
    refine ⟨fun j r' => within_adjustRole sender fun r => ?_, rfl⟩
    cases r with
    | bufferParams size => exact .of_tag _ (fun h => by cases h) fun h => by cases h
    | _ => exact .refl _
  -- `xdg_surface.set_window_geometry`
  case h_7 =>
    dsimp only
    split <;> exact hsame rfl rfl
  -- `xdg_surface.get_popup`
  case h_8 => exact absurd ⟨rfl, rfl⟩ hpopup
  -- `xdg_popup.reposition`
  case h_9 => exact absurd ⟨rfl, rfl⟩ hreposition
  -- `xdg_toplevel.set_title`
  case h_12 =>
    refine ⟨fun j r' => within_adjustRole (s := s.adjustFrame sender _) sender fun r => ?_, rfl⟩
    cases r with
    | toplevel t =>
        refine ⟨fun t' ht' => ?_, fun a p hp => by cases hp⟩
        cases ht'
        exact ⟨t, rfl, rfl, rfl⟩
    | _ => exact .refl _
  case h_15 | h_16 => exact hsame rfl rfl
  all_goals exact absurd (by decide) hset

private theorem header_offsetPositioner (s : State F) (positioner : Id) (height : Int) (xdgSurface : Id) :
    (s.offsetPositioner positioner height).header E xdgSurface = s.header E xdgSurface := by
  unfold offsetPositioner
  split
  · obtain ⟨hobjects, _, hframes⟩ := s.setPositioner_same positioner height
    unfold header toplevelOf role obj frameOffset
    rw [hobjects, hframes]
  · rfl

private theorem popupParent_offsetPositioner (s : State F) (positioner : Id) (height : Int) (popup : Id) :
    (s.offsetPositioner positioner height).popupParent popup = s.popupParent popup := by
  unfold offsetPositioner
  split
  · obtain ⟨hobjects, _, _⟩ := s.setPositioner_same positioner height
    unfold popupParent role obj
    rw [hobjects]
  · rfl

/-- A request that uses no positioner moves none. -/
theorem shift_afterRequest (s : State F) (sender : Id) {iface request : String} (args : List BridgeArg)
    (hpopup : ¬(iface = "xdg_surface" ∧ request = "get_popup"))
    (hreposition : ¬(iface = "xdg_popup" ∧ request = "reposition")) :
    (s.afterRequest E sender iface request args).shift = fun _ => 0 := by
  unfold afterRequest
  split
  -- `xdg_surface.get_popup`
  case h_7 => exact absurd ⟨rfl, rfl⟩ hpopup
  -- `xdg_popup.reposition`
  case h_8 => exact absurd ⟨rfl, rfl⟩ hreposition
  all_goals rfl

/-- What is done before a request leaves limits and placings, but for the positioner it uses. -/
theorem Mirrors.before (h : s.Mirrors E level (fun _ => 0) w) (hsteady : E.drawing.Steady) (sender : Id)
    {iface request : String} (args : List BridgeArg) (hset : request ∉ settingRequests iface)
    (hgoes : iface = "xdg_toplevel" → request = "destroy" → ∀ id, level id → id ≠ sender) :
    (s.beforeRequest E sender iface request args).1.Mirrors E level
      ((s.beforeRequest E sender iface request args).1.afterRequest E sender iface request
        (s.beforeRequest E sender iface request args).2.1).shift w := by
  by_cases hpopup : iface = "xdg_surface" ∧ request = "get_popup"
  · obtain ⟨rfl, rfl⟩ := hpopup
    show (s.offsetPositioner (uint args 2) (s.header E (uint args 1))).Mirrors E level
      (Function.update _ (uint args 2) ((s.offsetPositioner _ _).header E (uint args 1))) w
    rw [header_offsetPositioner]
    exact h.offsetPositioner _ _
  by_cases hreposition : iface = "xdg_popup" ∧ request = "reposition"
  · obtain ⟨rfl, rfl⟩ := hreposition
    show (s.offsetPositioner (uint args 0) (s.header E (s.popupParent sender))).Mirrors E level
      (Function.update _ (uint args 0)
        ((s.offsetPositioner _ _).header E ((s.offsetPositioner _ _).popupParent sender))) w
    rw [header_offsetPositioner, popupParent_offsetPositioner]
    exact h.offsetPositioner _ _
  rw [shift_afterRequest _ _ _ hpopup hreposition]
  obtain ⟨hrole, hlog⟩ := beforeRequest_plain (E := E) (s := s) sender args hset hpopup hreposition
  refine h.of_quiet (s.quiet_beforeRequest sender iface request args) hrole (fun id hl => ⟨hl, ?_⟩) ?_
  · by_cases hdestroy : iface = "xdg_toplevel" ∧ request = "destroy"
    · -- The frame of another toplevel.
      obtain ⟨rfl, rfl⟩ := hdestroy
      have hid := hgoes rfl rfl id hl
      show (Option.map _ ((s.frames.erase sender).lookup id)).getD 0 = _
      rw [AList.lookup_erase_ne hid]
      rfl
    · exact frameOffset_beforeRequest hsteady sender args hdestroy id
  · intro id o up _ _
    rw [hlog]
    exact .refl _

/-- An object that is forwarded but has not been asked for anything. -/
structure Blank (s : State F) (w : Nat → Own) (c : Id) : Prop where
  own : ∀ o up, s.obj c = some o → o.kind = .upstream (some up) → w o.born = {} ∧ copyOf up s.log = {}
  role : ∀ r, s.role c = some r → r.Unset

/-- A new object gets its role. -/
theorem Mirrors.setChildRole {shift : Id → Int} (h : s.Mirrors E level shift w) {child : Option Id} {role : Role}
    (hblank : ∀ c ∈ child, s.Blank w c) (hrole : role.Unset) :
    (s.setChildRole child role).Mirrors E level shift w := by
  cases child with
  | none => exact h
  | some c =>
      have hb := hblank c rfl
      have hobj : ∀ id o', (s.setChildRole (some c) role).obj id = some o' →
          ∃ o, s.obj id = some o ∧ o'.core = o.core ∧ (id = c ∧ o'.role = role ∨ o' = o) := by
        intro id o' ho'
        have hadjust : (s.setChildRole (some c) role).obj id =
            if id = c then (s.obj id).map fun o => { o with role := role } else s.obj id := obj_adjustRole _ _ _ _
        rw [hadjust] at ho'
        split at ho'
        · rename_i hid
          obtain ⟨o, ho, rfl⟩ := Option.map_eq_some_iff.mp ho'
          exact ⟨o, ho, rfl, .inl ⟨hid, rfl⟩⟩
        · exact ⟨o', ho', rfl, .inr rfl⟩
      refine ⟨fun id id' o₁ o₂ up ho₁ ho₂ hk₁ hk₂ => ?_, h.fresh, fun id o' up ho' hk' => ?_⟩
      · obtain ⟨o, ho, hcore, _⟩ := hobj id o₁ ho₁
        obtain ⟨o', ho', hcore', _⟩ := hobj id' o₂ ho₂
        have hkind : o₁.kind = o.kind := congrArg (fun c => c.2.2.1) hcore
        have hkind' : o₂.kind = o'.kind := congrArg (fun c => c.2.2.1) hcore'
        exact h.apart id id' o o' up ho ho' (hkind ▸ hk₁) (hkind' ▸ hk₂)
      · obtain ⟨o, ho, hcore, ⟨rfl, hr⟩ | rfl⟩ := hobj id o' ho'
        · have hkind : o'.kind = o.kind := congrArg (fun c => c.2.2.1) hcore
          have hborn : o'.born = o.born := congrArg (fun c => c.2.2.2) hcore
          obtain ⟨hown, hcopy⟩ := hb.own o up ho (hkind ▸ hk')
          show Mirrored _ _ _ _ (copyOf up s.log) _
          rw [hborn, hown, hcopy]
          exact Mirrored.unset (hr ▸ hrole)
        · exact h.objects id _ up ho hk'

theorem Blank.restorePositioner {c : Id} {shift : Id → Int} (hb : s.Blank w c) (h : s.Mirrors E level shift w)
    (positioner : Id) (height : Int) : (s.restorePositioner positioner height).Blank w c := by
  unfold State.restorePositioner
  split
  · obtain ⟨hobjects, _, _⟩ := s.setPositioner_same positioner 0
    have hobj : (s.setPositioner positioner 0).obj c = s.obj c := by rw [obj, obj, hobjects]
    refine ⟨fun o up ho hk => ?_, fun r hr => ?_⟩
    · rw [hobj] at ho
      obtain ⟨hown, hcopy⟩ := hb.own o up ho hk
      refine ⟨hown, Eq.trans ?_ hcopy⟩
      by_cases hc : positioner = c
      · subst hc
        rw [setPositioner_none]
        intro o' _ a p ho' _ hrole
        obtain rfl := Option.some.inj (ho.symm.trans ho')
        exact (hb.role _ (role_eq_some.mpr ⟨o, ho, hrole⟩)).positioner a p rfl
      · by_cases hp : ∃ o' up', s.obj positioner = some o' ∧ o'.kind = .upstream (some up')
        · obtain ⟨o', up', ho', hk'⟩ := hp
          apply copyOf_setPositioner ho' hk'
          rintro rfl
          exact hc (h.apart positioner c o' o up' ho' ho hk' hk)
        · rw [setPositioner_none]
          intro o' up' _ _ ho' hk'
          exact absurd ⟨o', up', ho', hk'⟩ hp
    · apply hb.role r
      rw [State.role, State.obj, hobjects] at hr
      exact hr
  · exact hb

/-- What a request creates is recorded, and its positioner put back. -/
theorem Mirrors.apply {after : After} (h : s.Mirrors E level after.shift w) (sender : Id) {child : Option Id}
    (hblank : ∀ c ∈ child, s.Blank w c) : (s.apply sender child after).Mirrors E level (fun _ => 0) w := by
  cases after with
  | nothing => exact h
  | reposition positioner height => exact h.restorePositioner
  | buffer _ _ | viewport _ | xdgOutput _ | xdgSurface _ =>
      exact Mirrors.setChildRole h hblank (.of_tag nofun nofun)
  | toplevel =>
      have hunset : ({ xdgSurface := s.ref sender } : Toplevel).min = (0, 0) := rfl
      cases child with
      | none => exact h
      | some c =>
          suffices hset : (State.setChildRole _ (some c) _).Mirrors E level _ w from hset
          refine Mirrors.setChildRole (Mirrors.adjustRole h sender fun r _ => ?_)
            (fun c' hc' => ⟨fun o up ho hk => ?_, fun r hr => ?_⟩) ⟨fun t ht => ?_, nofun⟩
          · cases r with
            | xdgSurface surface t => exact .of_tag _ nofun nofun
            | _ => exact .refl _
          · rw [obj_adjustRole] at ho
            split at ho
            · obtain ⟨o', ho', rfl⟩ := Option.map_eq_some_iff.mp ho
              exact (hblank c' hc').own o' up ho' hk
            · exact (hblank c' hc').own o up ho hk
          · rw [role_adjustRole] at hr
            split at hr
            · obtain ⟨r', hr', rfl⟩ := Option.map_eq_some_iff.mp hr
              have hblank' := (hblank c' hc').role r' hr'
              cases r' with
              | xdgSurface surface t => exact .of_tag nofun nofun
              | _ => exact hblank'
            · exact (hblank c' hc').role r hr
          · cases ht
            exact ⟨rfl, rfl⟩
  | popup parent positioner height =>
      refine Mirrors.setChildRole (Mirrors.restorePositioner h) (fun c hc => ?_) (.of_tag nofun nofun)
      exact (hblank c hc).restorePositioner h positioner height

/-- A request goes out, and what it does is recorded. -/
theorem Mirrors.complete {after : After} (h : s.Mirrors E level after.shift w) {sender : Id} {o obj : Obj}
    (ho : s.obj sender = some o) {up : Option ObjectId} (hkind : o.kind = .upstream up) {desc : MessageDesc}
    (hset : desc.name ∉ settingRequests o.iface.name) {answer : Answer} {out : Outgoing}
    (hnew : ∀ c name, out.child = some (c, name) → ∀ up', answer.sent = some up' → s.Unheard up')
    (hlevel : ∀ id, level' id → level id ∨ desc.isDestructor ∧ id = sender) :
    (s.complete E obj desc up sender answer after out).Mirrors E level' (fun _ => 0) w := by
  unfold State.complete
  dsimp only
  generalize hsent : (if out.dead then none else up.bind fun _ => answer.sent) = sent
  -- The request itself sets nothing of what is mirrored.
  have hpass : (s.pass up sent desc.name out.args).Mirrors E level after.shift w := by
    unfold pass
    split
    · rename_i up₁ _
      exact Mirrors.passed h ho hkind hset _
    · exact h
  -- The object that it creates is as new to the log as before.
  have hunheard : ∀ c name, out.child = some (c, name) → ∀ up', sent = some up' →
      (s.pass up sent desc.name out.args).Unheard up' := by
    intro c name hchild up' hup'
    have hanswer : answer.sent = some up' := by
      rw [hup'] at hsent
      split at hsent
      · cases hsent
      · obtain ⟨_, _, hanswer⟩ := Option.bind_eq_some_iff.mp hsent
        exact hanswer
    have hbefore := hnew c name hchild up' hanswer
    unfold pass
    split
    · rename_i up₁ _
      refine ⟨hbefore.objects, fun e he => ?_⟩
      rcases List.mem_append.mp he with he | he
      · exact hbefore.log e he
      · rw [List.mem_singleton.mp he]
        intro hsame
        obtain rfl := Option.some.inj hsame
        exact hbefore.kind ho hkind
    · exact hbefore
  have hchild : ((s.pass up sent desc.name out.args).createChild E out.child obj.version sent).Mirrors E level
        after.shift w ∧
      ∀ c ∈ out.child.map Prod.fst,
        ((s.pass up sent desc.name out.args).createChild E out.child obj.version sent).Blank w c := by
    unfold createChild
    split
    · rename_i hnone
      rw [hnone]
      exact ⟨hpass, nofun⟩
    · rename_i c name hc
      rw [hc]
      dsimp only
      have hobj : ∀ (kind : Kind) (role : Role) (t : State F), t.obj c = some
            { iface := E.table name, version := obj.version, kind := kind, role := role,
              born := (s.pass up sent desc.name out.args).births } →
          ∀ o', t.obj c = some o' → o'.born = (s.pass up sent desc.name out.args).births ∧ o'.kind = kind ∧
            o'.role = role := by
        intro kind role t ht o' ho'
        obtain rfl := Option.some.inj (ht.symm.trans ho')
        exact ⟨rfl, rfl, rfl⟩
      split
      · rename_i up'
        have hup' := hunheard c name hc up' rfl
        refine ⟨Mirrors.createForwarded hpass c _ _ hup' (Role.unset_forInterface _), fun c' hc' => ?_⟩
        obtain rfl : c = c' := Option.some.inj hc'
        have hself : ((s.pass up (some up') desc.name out.args).createForwarded c (E.table name) obj.version up'
            (Role.forInterface (E.table name).name)).obj c = some
              { iface := E.table name, version := obj.version, kind := .upstream (some up')
                role := Role.forInterface (E.table name).name
                born := (s.pass up (some up') desc.name out.args).births } := by
          show (State.create _ .bridge c _ _ _ _).obj c = _
          rw [obj_create, if_pos rfl]
        refine ⟨fun o' up₁ ho' hk => ?_, fun r hr => ?_⟩
        · obtain ⟨hborn, hkind', _⟩ := hobj _ _ _ hself o' ho'
          rw [hkind'] at hk
          cases hk
          rw [hborn]
          exact ⟨hpass.fresh _ le_rfl, (copyOf_append _ _ _).trans hup'.copyOf⟩
        · obtain ⟨o', ho', rfl⟩ := role_eq_some.mp hr
          rw [(hobj _ _ _ hself o' ho').2.2]
          exact Role.unset_forInterface _
      · refine ⟨Mirrors.create hpass .bridge c _ _ nofun (.of_tag nofun nofun), fun c' hc' => ?_⟩
        obtain rfl : c = c' := Option.some.inj hc'
        have hself : ((s.pass up none desc.name out.args).create .bridge c (E.table name) obj.version
            (.upstream none) .none).obj c = some
              { iface := E.table name, version := obj.version, kind := .upstream none, role := .none
                born := (s.pass up none desc.name out.args).births } := by
          rw [obj_create, if_pos rfl]
        refine ⟨fun o' up₁ ho' hk => ?_, fun r hr => ?_⟩
        · rw [(hobj _ _ _ hself o' ho').2.1] at hk
          cases hk
        · obtain ⟨o', ho', rfl⟩ := role_eq_some.mp hr
          rw [(hobj _ _ _ hself o' ho').2.2]
          exact .of_tag nofun nofun
  have happly := Mirrors.apply hchild.1 sender hchild.2
  split
  -- An object that is destroyed need not mirror anything.
  · refine Mirrors.destroy happly sender fun id hid hl => ?_
    rcases hlevel id hl with hl | ⟨_, hgone⟩
    · exact hl
    · exact absurd hgone hid
  · rename_i hkept
    refine Mirrors.mono happly fun id hl => ?_
    rcases hlevel id hl with hl | ⟨hgone, _⟩
    · exact hl
    · exact absurd hgone hkept

/-- What is asked of an object that is not forwarded, or sets nothing that goes for it. -/
theorem Mirrors.ask {shift : Id → Int} (h : s.Mirrors E level shift w) (hserials : s.Serials) {sender : Id} {o : Obj}
    (ho : s.obj sender = some o) {request : String} (args : List BridgeArg)
    (hset : (∃ up, o.kind = .upstream up) → request ∉ settingRequests o.iface.name) :
    s.Mirrors E level shift (Function.update w o.born ((w o.born).take request args)) := by
  have hlt := hserials.lt sender o ho
  refine h.of_same (fun _ o ho => ⟨o, ho, rfl, .refl _⟩) le_rfl (fun b hb => ?_) (fun _ _ hl => ⟨hl, rfl⟩)
    (fun id o' up ho' hk' => ?_) fun _ _ _ _ _ => .refl _
  · exact Function.update_of_ne (by omega) _ _
  · by_cases hborn : o'.born = o.born
    · obtain rfl := hserials.inj id sender o' o ho' ho hborn
      obtain rfl := Option.some.inj (ho.symm.trans ho')
      rw [Function.update_self]
      exact Own.take_sameFor _ _ (hset ⟨_, hk'⟩)
    · rw [Function.update_of_ne hborn]
      exact .refl _

/-- A request that sets something of its object: recorded, and passed on. -/
theorem Mirrors.set {shift : Id → Int} (h : s.Mirrors E level shift w) (hserials : s.Serials) {sender : Id} {o : Obj}
    (ho : s.obj sender = some o) {up sent : Option ObjectId} (hkind : o.kind = .upstream up)
    (hsent : up.isSome → sent.isSome) {f : Role → Role} {request : String} {args : List UpstreamArg} {own : Own}
    (hnew : ∀ u, up = some u → Mirrored (level sender) (s.frameOffset E sender) (shift sender) own
      ((copyOf u s.log).take request args) { o with role := f o.role }) :
    ((s.adjustRole sender f).pass up sent request args).Mirrors E level shift (Function.update w o.born own) := by
  have hlt := hserials.lt sender o ho
  obtain ⟨hobjects, hbirths, hframes⟩ : ((s.adjustRole sender f).pass up sent request args).objects =
        (s.adjustRole sender f).objects ∧
      ((s.adjustRole sender f).pass up sent request args).births = s.births ∧
      ((s.adjustRole sender f).pass up sent request args).frames = s.frames := by
    unfold pass
    split <;> exact ⟨rfl, rfl, rfl⟩
  have hcopy : ∀ u, copyOf u ((s.adjustRole sender f).pass up sent request args).log =
      if up = some u then (copyOf u s.log).take request args else copyOf u s.log := by
    intro u
    cases up with
    | none => exact (if_neg nofun).symm
    | some u' =>
        obtain ⟨x, rfl⟩ := Option.isSome_iff_exists.mp (hsent rfl)
        show copyOf u (s.log ++ [.passed u' request args]) = _
        rw [copyOf_append]
        show (if u' = u then _ else _) = _
        simp only [Option.some.injEq]
  have hobj : ∀ id o', ((s.adjustRole sender f).pass up sent request args).obj id = some o' →
      id = sender ∧ o' = { o with role := f o.role } ∨ id ≠ sender ∧ s.obj id = some o' := by
    intro id o' ho'
    rw [obj, hobjects] at ho'
    change (s.adjustRole sender f).obj id = some o' at ho'
    rw [obj_adjustRole] at ho'
    split at ho'
    · rename_i hid
      rw [hid, ho] at ho'
      exact .inl ⟨hid, (Option.some.inj ho').symm⟩
    · rename_i hid
      exact .inr ⟨hid, ho'⟩
  refine ⟨fun id id' o₁ o₂ u ho₁ ho₂ hk₁ hk₂ => ?_, fun b hb => ?_, fun id o' u ho' hk' => ?_⟩
  -- No two objects share one of the compositor's, before or after.
  · have hboth : ∀ {j : Id} {o' : Obj}, ((s.adjustRole sender f).pass up sent request args).obj j = some o' →
        ∃ o₀, s.obj j = some o₀ ∧ o₀.kind = o'.kind := by
      intro j o' ho'
      rcases hobj j o' ho' with ⟨rfl, rfl⟩ | ⟨_, ho'⟩
      · exact ⟨o, ho, rfl⟩
      · exact ⟨o', ho', rfl⟩
    obtain ⟨o₁', ho₁', hk₁'⟩ := hboth ho₁
    obtain ⟨o₂', ho₂', hk₂'⟩ := hboth ho₂
    exact h.apart id id' o₁' o₂' u ho₁' ho₂' (hk₁'.trans hk₁) (hk₂'.trans hk₂)
  -- Objects that are still to be made have set nothing.
  · rw [hbirths] at hb
    rw [Function.update_of_ne (by omega)]
    exact h.fresh b hb
  -- The object has what was set now, and every other is as it was.
  · rw [hcopy, frameOffset_of_frames hframes]
    rcases hobj id o' ho' with ⟨rfl, rfl⟩ | ⟨hid, hold⟩
    · have hup : up = some u := by
        rw [hkind] at hk'
        exact Kind.upstream.inj hk'
      rw [if_pos hup, Function.update_self]
      exact hnew u hup
    · have hne : up ≠ some u := by
        rintro rfl
        exact hid (h.apart id sender o' o u hold ho hk' hkind)
      have hborn : o'.born ≠ o.born := fun hsame => hid (hserials.inj id sender o' o hold ho hsame)
      rw [if_neg hne, Function.update_of_ne hborn]
      exact h.objects id o' u hold hk'

/-- The limits of a toplevel, sent again with the height of its title bar. -/
theorem copyOf_resendSizeLimits (s : State F) (up : ObjectId) (min max : Int × Int) (height : Int) :
    copyOf up (s.resendSizeLimits (some up) min max height).log =
      { copyOf up s.log with
        min := if min ≠ (0, 0) then grown height min else (copyOf up s.log).min
        max := if max ≠ (0, 0) then grown height max else (copyOf up s.log).max } := by
  have hmin : ∀ t : State F, copyOf up (if min ≠ (0, 0) then t.requestUpstream (some up) "set_min_size"
      [min.1, if min.2 > 0 then saturate (min.2 + height) else min.2] else t).log =
      { copyOf up t.log with min := if min ≠ (0, 0) then grown height min else (copyOf up t.log).min } := by
    intro t
    split
    · exact (copyOf_append up t.log _).trans (if_pos rfl)
    · rfl
  have hmax : ∀ t : State F, copyOf up (if max ≠ (0, 0) then t.requestUpstream (some up) "set_max_size"
      [max.1, if max.2 > 0 then saturate (max.2 + height) else max.2] else t).log =
      { copyOf up t.log with max := if max ≠ (0, 0) then grown height max else (copyOf up t.log).max } := by
    intro t
    split
    · exact (copyOf_append up t.log _).trans (if_pos rfl)
    · rfl
  exact (hmax _).trans (by rw [hmin])

private theorem copyOf_resendSizeLimits_of_ne (s : State F) {up : Option ObjectId} {up' : ObjectId} (hne : up ≠ some up')
    (min max : Int × Int) (height : Int) :
    copyOf up' (s.resendSizeLimits up min max height).log = copyOf up' s.log := by
  have hone : ∀ (t : State F) (limit : Int × Int) name as, copyOf up' (if limit ≠ (0, 0) then
      t.requestUpstream up name as else t).log = copyOf up' t.log := by
    intro t limit name as
    split
    · cases up with
      | none => rfl
      | some u => exact copyOf_requestUpstream (fun hu => hne (congrArg some hu)) t name as
    · rfl
  exact (hone _ max _ _).trans (hone s min _ _)

/-! ## Section 2: Title Bars That Come and Go -/

theorem resendSizeLimits_same (s : State F) (up : Option ObjectId) (min max : Int × Int) (height : Int) :
    (s.resendSizeLimits up min max height).objects = s.objects ∧
      (s.resendSizeLimits up min max height).births = s.births ∧
      (s.resendSizeLimits up min max height).frames = s.frames := by
  have hone : ∀ (t : State F) (limit : Int × Int) name as,
      (if limit ≠ (0, 0) then t.requestUpstream up name as else t).objects = t.objects ∧
      (if limit ≠ (0, 0) then t.requestUpstream up name as else t).births = t.births ∧
      (if limit ≠ (0, 0) then t.requestUpstream up name as else t).frames = t.frames := by
    intro t limit name as
    split
    · cases up <;> exact ⟨rfl, rfl, rfl⟩
    · exact ⟨rfl, rfl, rfl⟩
  obtain ⟨h₁, h₂, h₃⟩ := hone s min "set_min_size" [min.1, if min.2 > 0 then saturate (min.2 + height) else min.2]
  obtain ⟨h₁', h₂', h₃'⟩ := hone (if min ≠ (0, 0) then s.requestUpstream up "set_min_size"
    [min.1, if min.2 > 0 then saturate (min.2 + height) else min.2] else s) max "set_max_size"
    [max.1, if max.2 > 0 then saturate (max.2 + height) else max.2]
  exact ⟨h₁'.trans h₁, h₂'.trans h₂, h₃'.trans h₃⟩

private theorem upstream_eq_some {id : Id} {up : Option ObjectId} :
    s.upstream id = some up ↔ ∃ o, s.obj id = some o ∧ o.kind = .upstream up := by
  unfold upstream
  cases s.obj id with
  | none => simp
  | some o => cases hk : o.kind <;> simp [hk]

/-- A title bar that comes or goes, when the limits are sent again. -/
theorem Mirrors.resend {shift : Id → Int} (h : s.Mirrors E level shift w) {toplevel : Id} {t : Toplevel}
    {up : Option ObjectId} (hrole : s.role toplevel = some (.toplevel t)) (hup : s.upstream toplevel = some up)
    {frames : Table (Frame F)} (hframes : ∀ id, id ≠ toplevel → frames.lookup id = s.frames.lookup id)
    {height : Int} (hheight : ({ s with frames := frames } : State F).frameOffset E toplevel = height) :
    (({ s with frames := frames } : State F).resendSizeLimits up t.min t.max height).Mirrors E level shift w := by
  obtain ⟨hobjects, hbirths, hsame⟩ := ({ s with frames := frames } : State F).resendSizeLimits_same up t.min t.max height
  have hobj : ∀ id, (({ s with frames := frames } : State F).resendSizeLimits up t.min t.max height).obj id =
      s.obj id := fun id => by rw [obj, obj, hobjects]
  obtain ⟨o, ho, htop⟩ := role_eq_some.mp hrole
  obtain ⟨o₀, ho₀, hkind⟩ := upstream_eq_some.mp hup
  obtain rfl := Option.some.inj (ho.symm.trans ho₀)
  refine ⟨fun id id' o₁ o₂ u ho₁ ho₂ => ?_, fun b hb => h.fresh b (hbirths ▸ hb), fun id o' u ho' hk' => ?_⟩
  · rw [hobj] at ho₁ ho₂
    exact h.apart id id' o₁ o₂ u ho₁ ho₂
  rw [hobj] at ho'
  rw [frameOffset_of_frames hsame]
  have hbefore := h.objects id o' u ho' hk'
  -- Only the toplevel's own limits are sent again.
  by_cases hid : id = toplevel
  · subst hid
    obtain rfl := Option.some.inj (ho.symm.trans ho')
    obtain rfl : up = some u := by
      rw [hkind] at hk'
      exact Kind.upstream.inj hk'
    rw [hheight, copyOf_resendSizeLimits]
    refine ⟨fun hi t' ht' => ?_, hbefore.placing⟩
    obtain rfl := Role.toplevel.inj (htop.symm.trans ht')
    obtain ⟨hmin, hmax, hrmin, hrmax, hcopies⟩ := hbefore.limits hi t ht'
    refine ⟨hmin, hmax, hrmin, hrmax, fun hl => ?_⟩
    -- What was never set, or taken back, is not sent, and need not be.
    have hlimit : ∀ {limit own copy : Int × Int} {old : Int}, limit = own → copy = grown old own →
        (if limit ≠ (0, 0) then grown height limit else copy) = grown height own := by
      rintro limit own copy old rfl rfl
      split
      · rfl
      · rename_i hzero
        rw [not_not.mp hzero]
        rfl
    exact ⟨hlimit hmin (hcopies hl).1, hlimit hmax (hcopies hl).2⟩
  · have hne : up ≠ some u := by
      rintro rfl
      exact hid (h.apart id toplevel o' o u ho' ho hk' hkind)
    have hother : ({ s with frames := frames } : State F).frameOffset E id = s.frameOffset E id := by
      unfold frameOffset
      rw [hframes id hid]
    rw [hother, copyOf_resendSizeLimits_of_ne _ hne]
    exact hbefore

theorem Mirrors.addFrame {shift : Id → Int} (h : s.Mirrors E level shift w) {toplevel : Id} {framed : Bool}
    {t : State F} (ht : s.addFrame E toplevel framed = some t) : t.Mirrors E level shift w := by
  unfold State.addFrame at ht
  split at ht
  · cases ht
    exact h
  split at ht
  · rename_i top hrole
    split at ht
    · split at ht
      · split at ht
        · cases ht
          apply h.resend hrole (by assumption)
          · intro id hid
            exact AList.lookup_insert_ne hid
          · unfold frameOffset
            dsimp only
            rw [AList.lookup_insert]
            rfl
        · cases ht
      · cases ht
    · cases ht
  · cases ht

theorem Mirrors.removeFrame {shift : Id → Int} (h : s.Mirrors E level shift w) (toplevel : Id) :
    (s.removeFrame toplevel).Mirrors E level shift w := by
  have hframes : ∀ id, id ≠ toplevel → (s.frames.erase toplevel).lookup id = s.frames.lookup id :=
    fun id hid => AList.lookup_erase_ne hid
  unfold State.removeFrame
  split
  · dsimp only
    split
    · rename_i t up hrole hup
      apply h.resend hrole hup hframes
      unfold frameOffset
      dsimp only
      rw [AList.lookup_erase]
      rfl
    · -- No toplevel that is forwarded.
      rename_i hnone
      refine ⟨h.apart, h.fresh, fun id o u ho hk => ?_⟩
      have hbefore := h.objects id o u ho hk
      by_cases hid : id = toplevel
      · subst hid
        refine ⟨fun _ t ht => ?_, hbefore.placing⟩
        exact (hnone t (some u) (role_eq_some.mpr ⟨o, ho, ht⟩) (upstream_eq_some.mpr ⟨o, ho, hk⟩)).elim
      · have hother : ({ s with frames := s.frames.erase toplevel } : State F).frameOffset E id =
            s.frameOffset E id := by
          unfold frameOffset
          dsimp only
          rw [hframes id hid]
        rw [hother]
        exact hbefore
  · exact h

end State

/-! ## Section 3: What Is Promised -/

/-- The requests that matter here are what the protocols have them to be. -/
def Proper (iface : String) (desc : MessageDesc) : Prop :=
  match iface, desc.name with
  | "xdg_toplevel", "set_min_size" | "xdg_toplevel", "set_max_size" => desc.signature = [.int, .int]
  | "xdg_toplevel", "destroy" => desc.isDestructor
  | "xdg_positioner", "set_anchor_rect" => desc.signature = [.int, .int, .int, .int]
  | "xdg_positioner", "set_parent_size" => desc.signature = [.int, .int] ∧ 3 ≤ desc.since
  | _, _ => True

instance (iface : String) (desc : MessageDesc) : Decidable (Proper iface desc) := by
  unfold Proper
  split <;> infer_instance

def Arg.Fits {ρ : Type} : Arg ρ → Prop
  | .int v => InRange v
  | _ => True

instance {ρ : Type} : (a : Arg ρ) → Decidable a.Fits
  | .int v => inferInstanceAs (Decidable (InRange v))
  | .uint _ | .fixed _ | .str _ | .object _ | .newId _ | .array _ | .fd _ => isTrue trivial

/-- The new object an event names. -/
def newObject : UpstreamArg → Option ObjectId
  | .newId up => up
  | _ => none

/-- The arguments of `xdg_toplevel.configure`: a size and states. -/
def configureArgs : List UpstreamArg → Option (Int × Int × List UInt8)
  | [.int width, .int height, .array states] => some (width, height, states)
  | _ => none

def Role.asToplevel : Role → Option Toplevel
  | .toplevel t => some t
  | _ => Option.none

theorem Role.asToplevel_eq_some {r : Role} {t : Toplevel} : r.asToplevel = some t ↔ r = .toplevel t := by
  cases r <;> simp [Role.asToplevel]

/-- What the surroundings promise: numbers are `i32`s, objects that the compositor's connection makes
are new, the message tables are the protocols', and a request on an object that sets something of it
goes out. -/
def Promised (s : State F) : Action → Prop
  | .request m answer =>
      (∀ a ∈ m.args, a.Fits) ∧ ((∃ a ∈ m.args, a.isNewId) → ∀ up ∈ answer.sent, s.Unheard up) ∧
        ∀ o ∈ s.obj m.sender, ∀ desc ∈ o.iface.requests[m.opcode]?, Proper o.iface.name desc ∧
          (desc.name ∈ settingRequests o.iface.name → o.kind = .upstream none ∨ answer.sent.isSome)
  | .event e =>
      (∀ up ∈ e.args.filterMap newObject, s.Unheard up) ∧ (e.args.filterMap newObject).Nodup ∧
        ∀ x ∈ s.receiver e, x.2.1.iface.name = "xdg_toplevel" → x.2.2.name = "configure" →
          (configureArgs e.args).isSome
  | _ => True

instance (s : State F) : (a : Action) → Decidable (Promised s a)
  | .request m answer => inferInstanceAs (Decidable ((∀ a ∈ m.args, a.Fits) ∧
      ((∃ a ∈ m.args, a.isNewId) → ∀ up ∈ answer.sent, s.Unheard up) ∧
        ∀ o ∈ s.obj m.sender, ∀ desc ∈ o.iface.requests[m.opcode]?, Proper o.iface.name desc ∧
          (desc.name ∈ settingRequests o.iface.name → o.kind = .upstream none ∨ answer.sent.isSome)))
  | .event e => inferInstanceAs (Decidable ((∀ up ∈ e.args.filterMap newObject, s.Unheard up) ∧
      (e.args.filterMap newObject).Nodup ∧
        ∀ x ∈ s.receiver e, x.2.1.iface.name = "xdg_toplevel" → x.2.2.name = "configure" →
          (configureArgs e.args).isSome))
  | .setOutput _ _ | .close _ => isTrue trivial

/-- A toplevel gets no states that change its title bar's height, once it has limits that this would
change. -/
def LimitsStay (E : Setting F) (s : State F) : Action → Prop
  | .event e => ∀ x ∈ s.receiver e, x.2.1.iface.name = "xdg_toplevel" → x.2.2.name = "configure" →
      ∀ c ∈ configureArgs e.args, ∀ t ∈ x.2.1.role.asToplevel,
        grown (s.heightAfter E x.1 c.1 c.2.1 c.2.2) t.min = grown (s.frameOffset E x.1) t.min ∧
          grown (s.heightAfter E x.1 c.1 c.2.1 c.2.2) t.max = grown (s.frameOffset E x.1) t.max
  | _ => True

instance (E : Setting F) (s : State F) : (a : Action) → Decidable (LimitsStay E s a)
  | .event e => inferInstanceAs (Decidable (∀ x ∈ s.receiver e, x.2.1.iface.name = "xdg_toplevel" →
      x.2.2.name = "configure" → ∀ c ∈ configureArgs e.args, ∀ t ∈ x.2.1.role.asToplevel,
        grown (s.heightAfter E x.1 c.1 c.2.1 c.2.2) t.min = grown (s.frameOffset E x.1) t.min ∧
          grown (s.heightAfter E x.1 c.1 c.2.1 c.2.2) t.max = grown (s.frameOffset E x.1) t.max))
  | .request _ _ | .setOutput _ _ | .close _ => isTrue trivial

namespace State

variable {s s' t : State F} {w : Nat → Own} {level level' : Id → Prop}

/-- What is asked of positioners is no news of any other object. -/
theorem Unheard.setPositioner {up : ObjectId} (h : s.Unheard up) (positioner : Id) (height : Int) :
    (s.setPositioner positioner height).Unheard up := by
  obtain ⟨hobjects, _, _⟩ := s.setPositioner_same positioner height
  refine ⟨fun x hx => h.objects x (hobjects ▸ hx), ?_⟩
  have hask : ∀ {t : State F} {u : ObjectId} name as, u ≠ up → (∀ e ∈ t.log, e.target ≠ some up) →
      ∀ e ∈ (t.requestUpstream (some u) name as).log, e.target ≠ some up := by
    intro t u name as hne ht e he
    rcases List.mem_append.mp he with he | he
    · exact ht e he
    · rw [List.mem_singleton.mp he]
      exact fun hsame => hne (Option.some.inj hsame)
  unfold State.setPositioner
  split
  · rename_i o ho
    split
    · rename_i u anchor size hk _
      cases u with
      | none =>
          have hanchor : s.sendAnchor none anchor height = s := by
            unfold sendAnchor
            split <;> rfl
          rw [hanchor]
          unfold sendParentSize
          split
          · split <;> exact h.log
          · exact h.log
      | some u =>
          have hne : u ≠ up := by
            rintro rfl
            exact h.kind ho hk
          have hanchor : ∀ e ∈ (s.sendAnchor (some u) anchor height).log, e.target ≠ some up := by
            unfold sendAnchor
            split
            · exact hask _ _ hne h.log
            · exact h.log
          unfold sendParentSize
          split
          · split
            · exact hask _ _ hne hanchor
            · exact hanchor
          · exact hanchor
    · exact h.log
  · exact h.log

theorem Unheard.before {up : ObjectId} (h : s.Unheard up) (sender : Id) {iface request : String}
    (args : List BridgeArg) (hset : request ∉ settingRequests iface) :
    (s.beforeRequest E sender iface request args).1.Unheard up := by
  have hoffset : ∀ positioner height, (s.offsetPositioner positioner height).Unheard up := by
    intro positioner height
    unfold offsetPositioner
    split
    · exact h.setPositioner positioner height
    · exact h
  by_cases hpopup : iface = "xdg_surface" ∧ request = "get_popup"
  · obtain ⟨rfl, rfl⟩ := hpopup
    exact hoffset _ _
  by_cases hreposition : iface = "xdg_popup" ∧ request = "reposition"
  · obtain ⟨rfl, rfl⟩ := hreposition
    exact hoffset _ _
  have hlog := (beforeRequest_plain (E := E) (s := s) sender args hset hpopup hreposition).2
  refine ⟨fun x hx => ?_, fun e he => h.log e (hlog ▸ he)⟩
  have hx' : (s.beforeRequest E sender iface request args).1.obj x.1 = some x.2 := AList.mem_lookup_iff.mpr hx
  have hkind := (s.quiet_beforeRequest (E := E) sender iface request args).kind x.1
  rw [hx'] at hkind
  obtain ⟨o, ho, hk⟩ := Option.map_eq_some_iff.mp hkind.symm
  rw [← hk]
  exact h.kind ho

/-- Only a window geometry is kept back. -/
theorem beforeRequest_kept {sender : Id} {iface request : String} {args : List BridgeArg}
    (h : (s.beforeRequest E sender iface request args).2.2 = false) :
    iface = "xdg_surface" ∧ request = "set_window_geometry" := by
  unfold beforeRequest at h
  split at h
  -- `wl_surface.commit`
  case h_3 =>
    dsimp only at h
    split at h <;> cases h
  -- `xdg_surface.set_window_geometry`
  case h_7 => exact ⟨rfl, rfl⟩
  all_goals cases h

/-- A request that sets nothing of its object. -/
theorem Mirrors.forward_other (h : s.Mirrors E level (fun _ => 0) w) (hsteady : E.drawing.Steady) {o : Obj}
    {desc : MessageDesc} {up : Option ObjectId} {m : Request} {answer : Answer} (ho : s.obj m.sender = some o)
    (hkind : o.kind = .upstream up) (hset : desc.name ∉ settingRequests o.iface.name)
    (hdestroys : o.iface.name = "xdg_toplevel" → desc.name = "destroy" → desc.isDestructor)
    (hnew : (∃ a ∈ m.args, a.isNewId) → ∀ up ∈ answer.sent, s.Unheard up)
    (hs : s.forward E o desc up m answer = .ok s') : s'.Mirrors E level (fun _ => 0) w := by
  -- While a toplevel goes, its title bar is gone already.
  have hstart : s.Mirrors E (fun id => level id ∧ ¬(o.iface.name = "xdg_toplevel" ∧ desc.name = "destroy" ∧
      id = m.sender)) (fun _ => 0) w := Mirrors.mono h fun id hl => hl.1
  have hbefore := Mirrors.before hstart hsteady m.sender m.args hset fun hi hn id hl hid => hl.2 ⟨hi, hn, hid⟩
  have hquiet := s.quiet_beforeRequest (E := E) m.sender o.iface.name desc.name m.args
  have hcore := hquiet.core m.sender
  rw [ho] at hcore
  obtain ⟨o', ho', hcore⟩ := Option.map_eq_some_iff.mp hcore
  have hkind' : o'.kind = o.kind := congrArg (fun c => c.2.2.1) hcore
  have hiface' : o'.iface = o.iface := congrArg (fun c => c.1) hcore
  rcases forward_cases hs with ⟨hkept, rfl⟩ | ⟨out, _, htranslate, rfl⟩
  · obtain ⟨hi, hn⟩ := beforeRequest_kept hkept
    have hkeeps := Mirrors.before h hsteady m.sender m.args hset fun hi' => by
      rw [hi] at hi'
      exact absurd hi' (by decide)
    rw [hi, hn, shift_afterRequest _ _ _ (by decide) (by decide), ← hi, ← hn] at hkeeps
    exact hkeeps
  · refine Mirrors.complete hbefore ho' (hkind'.trans hkind) (hiface' ▸ hset) ?_ ?_
    · intro c name hchild up' hup'
      apply Unheard.before (hnew ?_ up' hup') _ _ hset
      have hmem := (newId_of_translate htranslate hchild).1
      rcases mem_args_beforeRequest hmem with hmem | ⟨v, hv⟩
      · exact ⟨_, hmem, rfl⟩
      · cases hv
    · intro id hl
      by_cases hgone : o.iface.name = "xdg_toplevel" ∧ desc.name = "destroy" ∧ id = m.sender
      · exact .inr ⟨hdestroys hgone.1 hgone.2.1, hgone.2.2⟩
      · exact .inl ⟨hl, hgone⟩

/-- A request of numbers only, after bookkeeping of its object. -/
theorem Mirrors.forward_set (h : s.Mirrors E level (fun _ => 0) w) (hserials : s.Serials) {o : Obj}
    {desc : MessageDesc} {up : Option ObjectId} {m : Request} {answer : Answer} (ho : s.obj m.sender = some o)
    (hkind : o.kind = .upstream up) (hsent : up.isSome → answer.sent.isSome) (f : Role → Role)
    (args : List BridgeArg) (out : List UpstreamArg) {own : Own}
    (hbefore : s.beforeRequest E m.sender o.iface.name desc.name m.args = (s.adjustRole m.sender f, args, true))
    (hafter : (s.adjustRole m.sender f).afterRequest E m.sender o.iface.name desc.name args = .nothing)
    (htranslate : (s.adjustRole m.sender f).translate o.iface.name desc args desc.signature desc.argInterfaces =
      .ok { args := out })
    (hnew : ∀ u, up = some u → Mirrored (level m.sender) (s.frameOffset E m.sender) 0 own
      ((copyOf u s.log).take desc.name out) { o with role := f o.role })
    (hs : s.forward E o desc up m answer = .ok s') :
    s'.Mirrors E level (fun _ => 0) (Function.update w o.born own) := by
  have hpassed : ((s.adjustRole m.sender f).pass up (up.bind fun _ => answer.sent) desc.name out).Mirrors E level
      (fun _ => 0) (Function.update w o.born own) := by
    apply Mirrors.set h hserials ho hkind _ hnew
    intro hup
    obtain ⟨u, rfl⟩ := Option.isSome_iff_exists.mp hup
    exact hsent rfl
  unfold forward at hs
  rw [hbefore] at hs
  dsimp only at hs
  rw [hafter, htranslate] at hs
  cases hs
  unfold State.complete
  show Mirrors _ _ _ (if desc.isDestructor then
    (State.destroy ((s.adjustRole m.sender f).pass up (up.bind fun _ => answer.sent) desc.name out)
      m.sender).deleteId m.sender
    else (s.adjustRole m.sender f).pass up (up.bind fun _ => answer.sent) desc.name out) _
  split
  · exact Mirrors.destroy hpassed m.sender fun _ _ hl => hl
  · exact hpassed

theorem wellTyped_ints {args : List BridgeArg} {n : Nat} (h : wellTyped args (List.replicate n .int)) :
    ∃ vs : List Int, vs.length = n ∧ args = vs.map .int := by
  induction args generalizing n with
  | nil =>
      cases n with
      | zero => exact ⟨[], rfl, rfl⟩
      | succ n => cases h
  | cons a args ih =>
      cases n with
      | zero => cases h
      | succ n =>
          obtain ⟨ha, hrest⟩ : a.hasType .int ∧ wellTyped args (List.replicate n .int) := by
            simpa [wellTyped, List.replicate_succ] using h
          obtain ⟨vs, hlength, rfl⟩ := ih hrest
          cases a with
          | int v => exact ⟨v :: vs, by rw [List.length_cons, hlength], rfl⟩
          | _ => cases ha

/-- A limit of a toplevel. -/
theorem Mirrors.forward_limit (h : s.Mirrors E level (fun _ => 0) w) (hserials : s.Serials)
    (hsteady : E.drawing.Steady) {o : Obj} {desc : MessageDesc} {up : Option ObjectId} {m : Request} {answer : Answer}
    (ho : s.obj m.sender = some o) (hkind : o.kind = .upstream up) (hsent : up.isSome → answer.sent.isSome)
    (hiface : o.iface.name = "xdg_toplevel") (hname : desc.name ∈ limitRequests)
    (hsignature : desc.signature = [.int, .int]) (htyped : wellTyped m.args desc.signature)
    (hfits : ∀ a ∈ m.args, a.Fits) (hs : s.forward E o desc up m answer = .ok s') :
    s'.Mirrors E level (fun _ => 0) (Function.update w o.born ((w o.born).take desc.name m.args)) := by
  rw [hsignature] at htyped
  obtain ⟨vs, hlength, hargs⟩ := wellTyped_ints (n := 2) htyped
  obtain ⟨width, height, rfl⟩ := List.length_eq_two.mp hlength
  change m.args = [.int width, .int height] at hargs
  have hheight : InRange height := hfits (.int height) (by simp [hargs])
  have hoffset := frameOffset_nonneg (s := s) hsteady m.sender
  -- What goes out is the limit, grown by the title bar there is.
  have hlimit : ∀ t : State F, t.frameOffset E m.sender = s.frameOffset E m.sender →
      beforeRequest.limitArgs E t m.sender (width, height) m.args =
        [.int width, .int (grown (s.frameOffset E m.sender) (width, height)).2] := by
    intro t hsame
    unfold beforeRequest.limitArgs grown
    rw [hsame, hargs]
    dsimp only
    by_cases hpositive : height > 0
    · rw [if_pos hpositive]
      by_cases hframed : s.frameOffset E m.sender > 0
      · rw [if_pos ⟨hframed, hpositive⟩]
        rfl
      · rw [if_neg fun hboth => hframed hboth.1]
        have hzero : s.frameOffset E m.sender = 0 := by omega
        rw [hzero, Int.add_zero, saturate_of_inRange hheight]
    · rw [if_neg hpositive, if_neg fun hboth => hpositive hboth.2]
  have hsize : (int m.args 0, int m.args 1) = (width, height) := by
    rw [hargs]
    rfl
  have hother : ∀ {o' : Obj}, o'.iface = o.iface → o'.iface.name ≠ "xdg_positioner" := by
    intro o' hsame
    rw [hsame, hiface]
    decide
  have hall := fun u (hu : up = some u) => h.objects m.sender o u ho (hu ▸ hkind)
  -- The lower limit.
  rcases List.mem_pair.mp hname with hn | hn
  · refine Mirrors.forward_set h hserials ho hkind hsent (fun
        | .toplevel t => .toplevel { t with min := (width, height) }
        | r => r) [.int width, .int (grown (s.frameOffset E m.sender) (width, height)).2]
      [.int width, .int (grown (s.frameOffset E m.sender) (width, height)).2] ?_ ?_ ?_ (fun u hu => ?_) hs
    · rw [hiface, hn]
      show (State.adjustRole s m.sender fun
          | .toplevel t => .toplevel { t with min := (int m.args 0, int m.args 1) }
          | r => r, beforeRequest.limitArgs E _ m.sender (int m.args 0, int m.args 1) m.args, true) = _
      rw [hsize]
      exact congrArg (fun args => (_, args, true)) (hlimit _ rfl)
    · rw [hiface, hn]
      rfl
    · rw [hsignature]
      rfl
    · refine ⟨fun hi t' ht' => ?_, fun hi => absurd hi (hother rfl)⟩
      rw [hn, hargs]
      dsimp only at ht'
      split at ht'
      · rename_i t ht
        cases ht'
        obtain ⟨_, hmax, _, hrmax, hcopies⟩ := (hall u hu).limits hi t ht
        exact ⟨rfl, hmax, hheight, hrmax, fun hl => ⟨rfl, (hcopies hl).2⟩⟩
      · rename_i hnone
        exact absurd ht' (hnone t')
  -- The upper limit.
  · refine Mirrors.forward_set h hserials ho hkind hsent (fun
        | .toplevel t => .toplevel { t with max := (width, height) }
        | r => r) [.int width, .int (grown (s.frameOffset E m.sender) (width, height)).2]
      [.int width, .int (grown (s.frameOffset E m.sender) (width, height)).2] ?_ ?_ ?_ (fun u hu => ?_) hs
    · rw [hiface, hn]
      show (State.adjustRole s m.sender fun
          | .toplevel t => .toplevel { t with max := (int m.args 0, int m.args 1) }
          | r => r, beforeRequest.limitArgs E _ m.sender (int m.args 0, int m.args 1) m.args, true) = _
      rw [hsize]
      exact congrArg (fun args => (_, args, true)) (hlimit _ rfl)
    · rw [hiface, hn]
      rfl
    · rw [hsignature]
      rfl
    · refine ⟨fun hi t' ht' => ?_, fun hi => absurd hi (hother rfl)⟩
      rw [hn, hargs]
      dsimp only at ht'
      split at ht'
      · rename_i t ht
        cases ht'
        obtain ⟨hmin, _, hrmin, _, hcopies⟩ := (hall u hu).limits hi t ht
        exact ⟨hmin, rfl, hrmin, hheight, fun hl => ⟨(hcopies hl).1, rfl⟩⟩
      · rename_i hnone
        exact absurd ht' (hnone t')

end State

def Role.setAnchorRect (rect : Int × Int × Int × Int) : Role → Role
  | .positioner _ size => .positioner (some rect) size
  | r => r

def Role.setParentSize (size : Int × Int) : Role → Role
  | .positioner anchor _ => .positioner anchor (some size)
  | r => r

namespace State

variable {s s' : State F} {w : Nat → Own} {level : Id → Prop}

/-- The anchor of a positioner. -/
theorem Mirrors.forward_anchor (h : s.Mirrors E level (fun _ => 0) w) (hserials : s.Serials) {o : Obj}
    {desc : MessageDesc} {up : Option ObjectId} {m : Request} {answer : Answer}
    (ho : s.obj m.sender = some o) (hkind : o.kind = .upstream up) (hsent : up.isSome → answer.sent.isSome)
    (hiface : o.iface.name = "xdg_positioner") (hname : desc.name = "set_anchor_rect")
    (hsignature : desc.signature = [.int, .int, .int, .int]) (htyped : wellTyped m.args desc.signature)
    (hfits : ∀ a ∈ m.args, a.Fits) (hs : s.forward E o desc up m answer = .ok s') :
    s'.Mirrors E level (fun _ => 0) (Function.update w o.born ((w o.born).take desc.name m.args)) := by
  rw [hsignature] at htyped
  obtain ⟨vs, hlength, hargs⟩ := wellTyped_ints (n := 4) htyped
  obtain ⟨x, y, width, height, rfl⟩ : ∃ x y width height, vs = [x, y, width, height] := by
    match vs, hlength with
    | [x, y, width, height], _ => exact ⟨x, y, width, height, rfl⟩
  change m.args = [.int x, .int y, .int width, .int height] at hargs
  have hy : InRange y := hfits (.int y) (by simp [hargs])
  refine Mirrors.forward_set h hserials ho hkind hsent (Role.setAnchorRect (x, y, width, height)) [.int x, .int y, .int width, .int height] [.int x, .int y, .int width, .int height]
      ?_ ?_ ?_ (fun u hu => ?_) hs
  · rw [hiface, hname, hargs]
    rfl
  · rw [hiface, hname]
    rfl
  · rw [hsignature]
    rfl
  · refine ⟨fun hi => ?_, fun hi a p hp => ?_⟩
    · rw [hiface] at hi
      exact absurd hi (by decide)
    · rw [hname, hargs]
      unfold Role.setAnchorRect at hp
      split at hp
      · rename_i a' p' hrole
        cases hp
        obtain ⟨_, hsize, _, hranges, _, hcopysize⟩ :=
          (h.objects m.sender o u ho (hu ▸ hkind)).placing hi a' p hrole
        refine ⟨rfl, hsize, fun r hr => ?_, hranges, ?_, hcopysize⟩
        · cases hr
          exact hy
        · show some _ = some (shiftAnchor 0 _)
          unfold shiftAnchor
          rw [Int.add_zero, saturate_of_inRange hy]
      · rename_i hnone
        exact absurd hp (hnone a p)

/-- The parent size of a positioner. -/
theorem Mirrors.forward_parentSize (h : s.Mirrors E level (fun _ => 0) w) (hserials : s.Serials) {o : Obj}
    {desc : MessageDesc} {up : Option ObjectId} {m : Request} {answer : Answer}
    (ho : s.obj m.sender = some o) (hkind : o.kind = .upstream up) (hsent : up.isSome → answer.sent.isSome)
    (hiface : o.iface.name = "xdg_positioner") (hname : desc.name = "set_parent_size")
    (hsignature : desc.signature = [.int, .int]) (hversion : 3 ≤ o.version) (htyped : wellTyped m.args desc.signature)
    (hfits : ∀ a ∈ m.args, a.Fits) (hs : s.forward E o desc up m answer = .ok s') :
    s'.Mirrors E level (fun _ => 0) (Function.update w o.born ((w o.born).take desc.name m.args)) := by
  rw [hsignature] at htyped
  obtain ⟨vs, hlength, hargs⟩ := wellTyped_ints (n := 2) htyped
  obtain ⟨width, height, rfl⟩ := List.length_eq_two.mp hlength
  change m.args = [.int width, .int height] at hargs
  have hheight : InRange height := hfits (.int height) (by simp [hargs])
  refine Mirrors.forward_set h hserials ho hkind hsent (Role.setParentSize (width, height)) [.int width, .int height] [.int width, .int height]
      ?_ ?_ ?_ (fun u hu => ?_) hs
  · rw [hiface, hname, hargs]
    rfl
  · rw [hiface, hname]
    rfl
  · rw [hsignature]
    rfl
  · refine ⟨fun hi => ?_, fun hi a p hp => ?_⟩
    · rw [hiface] at hi
      exact absurd hi (by decide)
    · rw [hname, hargs]
      unfold Role.setParentSize at hp
      split at hp
      · rename_i a' p' hrole
        cases hp
        obtain ⟨hanchor, _, hranges, _, hcopyanchor, _⟩ :=
          (h.objects m.sender o u ho (hu ▸ hkind)).placing hi a p' hrole
        refine ⟨hanchor, rfl, hranges, fun x hx => ?_, hcopyanchor, ?_⟩
        · cases hx
          exact ⟨hheight, hversion⟩
        · show some _ = some (growSize 0 _)
          unfold growSize
          rw [Int.add_zero, saturate_of_inRange hheight]
      · rename_i hnone
        exact absurd hp (hnone a p)

private theorem asks_request {m : Request} {answer : Answer} {o : Obj} {desc : MessageDesc} (ho : s.obj m.sender = some o)
    (hdesc : o.iface.requests[m.opcode]? = some desc) (w : Nat → Own) :
    asks s (.request m answer) w = Function.update w o.born ((w o.born).take desc.name m.args) := by
  unfold asks
  dsimp only
  rw [ho]
  dsimp only
  rw [hdesc]

/-- A request keeps the copies right. -/
theorem Mirrors.request (h : s.Mirrors E level (fun _ => 0) w) (hserials : s.Serials) (hsteady : E.drawing.Steady)
    {m : Request} {answer : Answer} (hp : Promised s (.request m answer))
    (hs : s.request E m answer = .ok s') :
    s'.Mirrors E level (fun _ => 0) (asks s (.request m answer) w) := by
  obtain ⟨hfits, hnew, hproper⟩ := hp
  obtain ⟨o, desc, ho, hdesc, htyped, hsince, hcases⟩ := request_cases hs
  obtain ⟨hdesc', hsent⟩ := hproper o ho desc hdesc
  rw [asks_request ho hdesc]
  have hask : ((∃ up, o.kind = .upstream up) → desc.name ∉ settingRequests o.iface.name) →
      s.Mirrors E level (fun _ => 0) (Function.update w o.born ((w o.born).take desc.name m.args)) :=
    Mirrors.ask h hserials ho m.args
  rcases hcases with ⟨hkind, hs⟩ | ⟨hkind, hs⟩ | ⟨toplevel, hkind, hs⟩ | ⟨up, hkind, ⟨hregistry, hs⟩ | ⟨_, hs⟩⟩
  · -- The display
    have hasked := hask fun ⟨up, hup⟩ => by
      rw [hkind] at hup
      cases hup
    obtain ⟨child, name, up, hargs, _, hup, hs⟩ := displayRequest_cases hs
    have hunheard := hnew ⟨.newId child, by rw [hargs]; exact List.mem_singleton_self _, rfl⟩ up hup
    have hcreated := Mirrors.createForwarded hasked child (E.table name) 1 hunheard
      (Role.unset_forInterface (E.table name).name)
    rcases hs with rfl | ⟨args, rfl⟩
    · exact hcreated
    · exact hcreated.note fun _ _ => rfl
  · -- The decoration manager
    have hasked := hask fun ⟨up, hup⟩ => by
      rw [hkind] at hup
      cases hup
    rcases managerRequest_cases hs with ⟨_, rfl⟩ | ⟨_, id, toplevel, _, rfl⟩
    · exact Mirrors.destroy hasked m.sender fun _ _ hl => hl
    · exact Mirrors.create hasked .bridge id _ _ nofun (.of_tag nofun nofun)
  · -- A decoration
    have hasked := hask fun ⟨up, hup⟩ => by
      rw [hkind] at hup
      cases hup
    rcases decorationRequest_cases hs with ⟨_, rfl⟩ | ⟨_, ⟨t, mode, ht, rfl⟩ | ⟨mode, _, rfl⟩ | ⟨mode, rfl⟩⟩
    · exact Mirrors.destroy (Mirrors.removeFrame hasked toplevel.id) m.sender fun _ _ hl => hl
    · exact Mirrors.note (Mirrors.addFrame hasked ht) fun _ _ => rfl
    · exact hasked.note fun _ _ => rfl
    · exact Mirrors.note (Mirrors.removeFrame hasked toplevel.id) fun _ _ => rfl
  · -- The registry
    have hasked := hask fun _ => by
      rw [hregistry]
      exact fun hmem => (List.not_mem_nil hmem).elim
    obtain ⟨child, hchild, _, ⟨version, rfl⟩ | ⟨global, version, up', name, hup, rfl⟩⟩ := bind_cases hs
    · exact Mirrors.create hasked .bridge child _ _ nofun (.of_tag nofun nofun)
    · exact Mirrors.createForwarded hasked child global version (hnew ⟨_, hchild, rfl⟩ up' hup)
        (unset_boundRole global.name name)
  by_cases hset : desc.name ∈ settingRequests o.iface.name
  · -- It sets something of its object.
    have hanswer : up.isSome → answer.sent.isSome := by
      intro hsome
      rcases hsent hset with hnone | hanswer
      · rw [hkind] at hnone
        cases hnone
        cases hsome
      · exact hanswer
    unfold settingRequests at hset
    split at hset
    · rename_i hiface
      refine Mirrors.forward_limit h hserials hsteady ho hkind hanswer hiface hset ?_ htyped hfits hs
      rw [hiface] at hdesc'
      unfold Proper at hdesc'
      rcases List.mem_pair.mp hset with hn | hn
      all_goals
        rw [hn] at hdesc'
        exact hdesc'
    split at hset
    · rename_i hiface
      rw [hiface] at hdesc'
      unfold Proper at hdesc'
      rcases List.mem_pair.mp hset with hn | hn
      · rw [hn] at hdesc'
        exact Mirrors.forward_anchor h hserials ho hkind hanswer hiface hn hdesc' htyped hfits hs
      · rw [hn] at hdesc'
        exact Mirrors.forward_parentSize h hserials ho hkind hanswer hiface hn hdesc'.1
          (hdesc'.2.trans hsince) htyped hfits hs
    · cases hset
  -- A request that sets nothing only passes through.
  · refine Mirrors.forward_other (hask fun _ => hset) hsteady ho hkind hset ?_ hnew hs
    intro hi hn
    rw [hi] at hdesc'
    unfold Proper at hdesc'
    rw [hn] at hdesc'
    exact hdesc'

/-! ## Section 4: Events -/

theorem Unheard.create {up : ObjectId} (h : s.Unheard up) (origin : Origin) (id : Id) (iface : Interface)
    (version : Nat) {kind : Kind} (role : Role) (hkind : kind ≠ .upstream (some up)) :
    (s.create origin id iface version kind role).Unheard up := by
  refine ⟨fun x hx => ?_, fun e he => ?_⟩
  · have hx' : (s.create origin id iface version kind role).obj x.1 = some x.2 := AList.mem_lookup_iff.mpr hx
    rw [obj_create] at hx'
    split at hx'
    · rw [← Option.some.inj hx']
      exact hkind
    · exact h.kind hx'
  · rcases List.mem_append.mp he with he | he
    · exact h.log e he
    · rw [List.mem_singleton.mp he]
      exact nofun

/-- The arguments of an event: the objects it makes are new. -/
theorem Mirrors.receive {shift : Id → Int} (h : s.Mirrors E level shift w) (desc : MessageDesc) (version : Nat)
    (alive : ObjectId → Bool) {args : List UpstreamArg} (hnew : ∀ up ∈ args.filterMap newObject, s.Unheard up)
    (hnodup : (args.filterMap newObject).Nodup) :
    (s.receive E desc version alive args).1.Mirrors E level shift w := by
  induction args generalizing s with
  | nil => exact h
  | cons a args ih =>
      have hrest : ∀ up ∈ args.filterMap newObject, s.Unheard up := by
        intro up hup
        apply hnew
        rw [List.filterMap_cons]
        split
        · exact hup
        · exact List.mem_cons_of_mem _ hup
      have hnodup' : (args.filterMap newObject).Nodup := by
        rw [List.filterMap_cons] at hnodup
        split at hnodup
        · exact hnodup
        · exact (List.nodup_cons.mp hnodup).2
      cases a with
      | object up =>
          cases up with
          | none => exact ih h hrest hnodup'
          | some up =>
              unfold State.receive
              split
              · exact ih h hrest hnodup'
              · exact ih h hrest hnodup'
      | newId up =>
          unfold State.receive
          split
          · exact h
          · dsimp only
            split
            · have hnext : ({ s with nextServerId := s.nextServerId + 1 } : State F).Mirrors E level shift w :=
                h.same rfl rfl (fun _ => rfl) fun _ => rfl
              have hunheard : ∀ {u}, s.Unheard u → ({ s with nextServerId := s.nextServerId + 1 } : State F).Unheard u :=
                fun hu => ⟨hu.objects, hu.log⟩
              refine ih (Mirrors.create hnext .compositor _ _ version (fun u hu => ?_) (Role.unset_forInterface _))
                (fun u hu => ?_) hnodup'
              · cases hu
                exact hunheard (hnew u List.mem_cons_self)
              · apply (hunheard (hrest u hu)).create
                rintro hsame
                cases hsame
                exact (List.nodup_cons.mp hnodup).1 hu
            · exact h.same rfl rfl (fun _ => rfl) fun _ => rfl
      | int _ | uint _ | fixed _ | str _ | array _ | fd _ => exact ih h hrest hnodup'

theorem Mirrors.ends {shift : Id → Int} (h : s.Mirrors E level shift w) {id : Id} (he : Ends id s s')
    (data : Table Id) : ({ s' with data := data } : State F).Mirrors E level shift w := by
  apply Mirrors.with_data
  cases he with
  | nothing hs =>
      rw [hs]
      exact h
  | gone _ hs =>
      rw [hs]
      exact Mirrors.destroy h id fun _ _ hl => hl

theorem Mirrors.delivered {shift : Id → Int} {bridge : Id} {iface : Interface} {desc : MessageDesc} {e : Event}
    {input : Incoming} {out : State F × List BridgeArg × Bool} (h : out.1.Mirrors E level shift w)
    (hd : Delivered s s' bridge iface desc e input out) : s'.Mirrors E level shift w := by
  obtain ⟨data, u, hends, rfl⟩ := hd.parts
  refine Mirrors.ends ?_ hends data
  split
  · exact h.note fun _ _ => rfl
  · exact h

theorem Mirrors.focus {shift : Id → Int} (h : s.Mirrors E level shift w) (bridge : Id) (iface event : String)
    (hidden : Bool) (args : List BridgeArg) :
    (s.focus bridge iface event hidden args).1.Mirrors E level shift w := by
  have halters := s.alters_focus bridge iface event hidden args (N := fun _ => False)
  refine h.of_quiet (still_focus _ _ _ _ _ _).toQuiet (fun id r' => within_of_alters halters (by decide) (by decide))
    (fun id hl => ⟨hl, frameOffset_of_frames (frames_focus _ _ _ _ _ _) id⟩) fun id o up _ _ => ?_
  rw [halters.log_eq]
  exact .refl _

/-- What the bridge is told sets nothing at the compositor's. -/
theorem copyOf_of_tells {tags : List Tag} {names : List String} (h : Alters tags (Entry.tells names) s t)
    (up : ObjectId) : copyOf up t.log = copyOf up s.log := by
  obtain ⟨new, hlog, hnew⟩ := h.log
  rw [hlog]
  apply copyOf_eq_of_forall
  intro e he own
  cases e with
  | passed target request args => exact (hnew _ he).elim
  | _ => rfl

private theorem Mirrors.of_tells {shift : Id → Int} (h : s.Mirrors E level shift w) (hq : Quiet s t) {tags : List Tag}
    {names : List String} (ha : Alters tags (Entry.tells names) s t) (htoplevel : .toplevel ∉ tags)
    (hpositioner : .positioner ∉ tags) (hheight : ∀ id, t.frameOffset E id = s.frameOffset E id) :
    t.Mirrors E level shift w := by
  refine h.of_quiet hq (fun id r' => within_of_alters ha htoplevel hpositioner)
    (fun id hl => ⟨hl, hheight id⟩) fun id o up _ _ => ?_
  rw [copyOf_of_tells ha up]
  exact .refl _

/-- What is recorded before an event, but for the states of a toplevel. -/
theorem Mirrors.beforeEvent {shift : Id → Int} (h : s.Mirrors E level shift w) (hsteady : E.drawing.Steady)
    (bridge : Id) {iface event : String} (hidden : Bool) (args : List BridgeArg)
    (hstates : ¬(iface = "xdg_toplevel" ∧ event = "configure")) :
    (s.beforeEvent E bridge iface event hidden args).1.Mirrors E level shift w := by
  have hheight := frameOffset_beforeEvent (s := s) hsteady bridge hidden args hstates
  have hquiet := s.quiet_beforeEvent (E := E) bridge iface event hidden args
  by_cases hcreated : iface = "zwp_linux_buffer_params_v1" ∧ event = "created"
  · rw [hcreated.1, hcreated.2, beforeEvent_created]
    split
    · dsimp only
      apply Mirrors.focus
      exact h.adjustRole _ fun r _ => .of_tag r nofun nofun
    · exact h
  exact h.of_tells hquiet (s.alters_beforeEvent_of_not_created bridge hidden args hcreated) (by decide)
    (by decide) hheight

/-- New states of a toplevel, where they change no limit. -/
theorem Mirrors.configured {shift : Id → Int} (h : s.Mirrors E level shift w) {bridge : Id} {frames : Table (Frame F)}
    (hframes : ∀ id, id ≠ bridge → frames.lookup id = s.frames.lookup id)
    (hstay : level bridge → ∀ t, s.role bridge = some (.toplevel t) →
      grown (({ s with frames := frames } : State F).frameOffset E bridge) t.min = grown (s.frameOffset E bridge) t.min ∧
        grown (({ s with frames := frames } : State F).frameOffset E bridge) t.max =
          grown (s.frameOffset E bridge) t.max) :
    ({ s with frames := frames } : State F).Mirrors E level shift w := by
  refine ⟨h.apart, h.fresh, fun id o up ho hk => ?_⟩
  have hbefore := h.objects id o up ho hk
  by_cases hid : id = bridge
  · subst hid
    refine ⟨fun hi t ht => ?_, hbefore.placing⟩
    obtain ⟨hmin, hmax, hrmin, hrmax, hcopies⟩ := hbefore.limits hi t ht
    refine ⟨hmin, hmax, hrmin, hrmax, fun hl => ?_⟩
    obtain ⟨hsamemin, hsamemax⟩ := hstay hl t (role_eq_some.mpr ⟨o, ho, ht⟩)
    obtain ⟨hcopymin, hcopymax⟩ := hcopies hl
    rw [hmin] at hsamemin
    rw [hmax] at hsamemax
    exact ⟨hcopymin.trans hsamemin.symm, hcopymax.trans hsamemax.symm⟩
  · have hother : ({ s with frames := frames } : State F).frameOffset E id = s.frameOffset E id := by
      unfold frameOffset
      dsimp only
      rw [hframes id hid]
    rw [hother]
    exact hbefore

theorem Mirrors.event (h : s.Mirrors E level (fun _ => 0) w) (hkept : s.IdsKept) (hsteady : E.drawing.Steady)
    {e : Event} (hp : Promised s (.event e)) (hstay : ∀ id, level id → LimitsStay E s (.event e)) :
    (s.event E e).Mirrors E level (fun _ => 0) w := by
  obtain ⟨hnew, hnodup, hshape⟩ := hp
  rcases s.event_cases (E := E) e with ⟨_, hs⟩ | ⟨bridge, o, desc, ht, hevent⟩
  · rw [hs]
    exact h
  have hreceived := Mirrors.receive (E := E) h desc o.version e.alive hnew hnodup
  by_cases hstates : o.iface.name = "xdg_toplevel" ∧ desc.name = "configure"
  · -- New states
    obtain ⟨c, hc⟩ := Option.isSome_iff_exists.mp (hshape _ (receiver_eq_some.mpr ht) hstates.1 hstates.2)
    have hargs : e.args = [.int c.1, .int c.2.1, .array c.2.2] := by
      unfold configureArgs at hc
      split at hc
      · cases hc
        assumption
      · cases hc
    have hr : s.receive E desc o.version e.alive e.args =
        (s, some { args := [.int c.1, .int c.2.1, .array c.2.2] }) := by
      rw [hargs]
      rfl
    have hd := event_delivered ht hr
    rw [hstates.1, hstates.2, beforeEvent_configure] at hd
    dsimp only at hd
    obtain ⟨frames, hadjusted, hframes, hheight⟩ :=
      s.adjustEvent_configure_frames (E := E) bridge c.1 c.2.1 c.2.2
    rw [hadjusted] at hd
    refine Mirrors.delivered (Mirrors.focus (h.configured hframes fun hl t hrole => ?_) _ _ _ _ _) hd
    rw [hheight]
    obtain ⟨o', ho', hrole⟩ := role_eq_some.mp hrole
    obtain rfl := Option.some.inj (ht.found.symm.trans ho')
    exact hstay bridge hl _ (receiver_eq_some.mpr ht) hstates.1 hstates.2 c hc t
      (Role.asToplevel_eq_some.mpr hrole)
  · rcases hevent with ⟨_, hs⟩ | ⟨input, _, hs⟩
    · rw [hs]
      exact hreceived
    · have hsome := isSome_of_upstream (hkept.receive_upstream (E := E) ht)
      have hd := delivered_deliver (E := E) hsome o.iface desc e input
      rw [hs]
      exact Mirrors.delivered (hreceived.beforeEvent hsteady bridge input.hidden input.args hstates) hd

theorem Mirrors.step (h : s.Mirrors E level (fun _ => 0) w) (hserials : s.Serials) (hkept : s.IdsKept)
    (hsteady : E.drawing.Steady) {a : Action} (hp : Promised s a) (hstay : ∀ id, level id → LimitsStay E s a)
    (hs : step E s a = some s') : s'.Mirrors E level (fun _ => 0) (asks s a w) := by
  cases a with
  | request m answer => exact Mirrors.request h hserials hsteady hp (toOption_eq_some.mp hs)
  | event e =>
      cases hs
      exact Mirrors.event h hkept hsteady hp hstay
  | setOutput global geometry =>
      cases hs
      cases geometry with
      | none | some g => exact h.same rfl rfl (fun _ => rfl) fun _ => rfl
  | close toplevel =>
      cases hs
      have hframes : (s.close toplevel).frames = s.frames := by
        unfold State.close
        split <;> rfl
      exact h.of_tells (s.still_close toplevel).toQuiet (s.alters_close toplevel) List.not_mem_nil
        List.not_mem_nil (frameOffset_of_frames hframes)

theorem mirrors_initial (F : Type) (E : Setting F) (level : Id → Prop) :
    (State.initial F E).Mirrors E level (fun _ => 0) fun _ => {} := by
  have hdisplay : ∀ id o, (State.initial F E).obj id = some o → o.kind = .display := by
    intro id o ho
    rw [obj_initial] at ho
    split at ho
    · rw [← Option.some.inj ho]
    · cases ho
  refine ⟨fun id _ o _ up ho _ hk _ => ?_, fun _ _ => rfl, fun id o up ho hk => ?_⟩
  all_goals
    rw [hdisplay id o ho] at hk
    cases hk

end State

/-- The invariant of a run. -/
theorem mirrors_of_run {E : Setting F} (hsteady : E.drawing.Steady) {level : Id → Prop}
    {C : State F × (Nat → Own) → Action → Prop}
    (hpromised : ∀ x a, C x a → Promised x.1 a ∧ ∀ id, level id → LimitsStay E x.1 a)
    {x : State F × (Nat → Own)} {as : List Action}
    (hmeets : StepsMeet (watched (step E) asks) C (State.initial F E, fun _ => {}) as)
    (hrun : run (watched (step E) asks) (State.initial F E, fun _ => {}) as = some x) :
    x.1.Mirrors E level (fun _ => 0) x.2 ∧ x.1.Serials ∧ x.1.IdsKept := by
  refine run_invariant_of_meets (I := fun x => x.1.Mirrors E level (fun _ => 0) x.2 ∧ x.1.Serials ∧ x.1.IdsKept)
    ?_ ?_ hmeets hrun
  · rintro ⟨s, w⟩ a ⟨s', w'⟩ ⟨hmirrors, hserials, hkept⟩ hc hstep
    obtain ⟨hs, rfl⟩ := watched_eq_some.mp hstep
    obtain ⟨hp, hstay⟩ := hpromised _ a hc
    exact ⟨hmirrors.step hserials hkept hsteady hp hstay hs, hserials.step hkept hs, hkept.step hs⟩
  · exact ⟨State.mirrors_initial F E level, State.serials_initial F E, State.idsKept_initial F E⟩

end Psbox.Decorations
