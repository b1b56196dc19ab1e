import Psbox.Decorations.Bookkeeping

/-!
# The Parts of a Step

What the proxy does for a request, and for the arguments of an event, is made of a few
parts: bookkeeping, an object that is created, one that is destroyed. A property that
these keep (`Preserved`) is kept by requests and by taking the arguments in.
-/

namespace Psbox.Decorations

open Psbox.Foundations (bind_eq_ok)

variable {F : Type} {E : Setting F}

namespace State

/-! ## Section 1: Ids of New Objects -/

theorem checkNewId_eq_ok {s : State F} {id : Id} :
    s.checkNewId id = .ok () ↔ id ≠ 0 ∧ id < serverIdStart ∧ s.obj id = none := by
  unfold checkNewId
  split
  · rename_i hbad
    constructor
    · intro h
      cases h
    · rintro ⟨hzero, hserver, hnone⟩
      rw [hnone] at hbad
      rcases hbad with hbad | hbad | hbad
      · exact absurd hbad hzero
      · exact absurd hserver (not_lt.mpr hbad)
      · cases hbad
  · rename_i hgood
    simp only [not_or, Option.not_isSome_iff_eq_none, not_le, ge_iff_le] at hgood
    exact ⟨fun _ => hgood, fun _ => rfl⟩

theorem isSome_of_upstream {s : State F} {id : Id} {up : Option ObjectId}
    (h : s.upstream id = some up) : (s.obj id).isSome := by
  unfold upstream at h
  split at h
  · rename_i hkind
    have hsome := congrArg Option.isSome hkind
    simpa using hsome
  · cases h

/-- The object a request creates has an id that the request gives it, and may. -/
theorem newId_of_translate {s : State F} {iface : String} {desc : MessageDesc}
    {args : List BridgeArg} {types : List ArgType} {expected : List String} {out : Outgoing}
    {id : Id} {name : String} (h : s.translate iface desc args types expected = .ok out)
    (hchild : out.child = some (id, name)) : .newId id ∈ args ∧ s.checkNewId id = .ok () := by
  induction args generalizing types expected out with
  | nil =>
      unfold translate at h
      cases h
      cases hchild
  | cons a args ih =>
      cases types with
      | nil =>
          cases a <;> (unfold translate at h; cases h; cases hchild)
      | cons ty types =>
          cases a with
          | object up =>
              unfold translate at h
              split at h
              · split at h
                · cases h
                · obtain ⟨out', hrest, h⟩ := bind_eq_ok h
                  cases h
                  exact (ih hrest hchild).imp_left (List.mem_cons_of_mem _)
              split at h
              · cases h
              · split at h
                · dsimp only at h
                  split at h
                  · cases h
                  · obtain ⟨out', hrest, h⟩ := bind_eq_ok h
                    cases h
                    exact (ih hrest hchild).imp_left (List.mem_cons_of_mem _)
                · cases h
          | newId child =>
              unfold translate at h
              obtain ⟨_, hnew, h⟩ := bind_eq_ok h
              split at h
              · cases h
              · obtain ⟨out', hrest, h⟩ := bind_eq_ok h
                cases h
                cases hlater : out'.child with
                | none =>
                    rw [hlater] at hchild
                    cases hchild
                    exact ⟨List.mem_cons_self, hnew⟩
                | some later =>
                    rw [hlater] at hchild
                    exact (ih hrest (hlater.trans hchild)).imp_left (List.mem_cons_of_mem _)
          | int _ | uint _ | fixed _ | str _ | array _ | fd _ =>
              unfold translate at h
              obtain ⟨out', hrest, h⟩ := bind_eq_ok h
              cases h
              exact (ih hrest hchild).imp_left (List.mem_cons_of_mem _)

/-- The arguments a request goes out with are its own, or numbers. -/
theorem mem_args_beforeRequest {s : State F} {sender : Id} {iface request : String}
    {args : List BridgeArg} {a : BridgeArg}
    (h : a ∈ (s.beforeRequest E sender iface request args).2.1) : a ∈ args ∨ ∃ v, a = .int v := by
  have hlimit : ∀ (t : State F) (size : Int × Int),
      a ∈ beforeRequest.limitArgs E t sender size args → a ∈ args ∨ ∃ v, a = .int v := by
    intro t size ha
    unfold beforeRequest.limitArgs at ha
    dsimp only at ha
    split at ha
    · rcases List.mem_or_eq_of_mem_set ha with ha | rfl
      · exact .inl ha
      · exact .inr ⟨_, rfl⟩
    · exact .inl ha
  unfold beforeRequest at h
  split at h
  -- `wl_surface.commit` and `xdg_surface.set_window_geometry`
  case h_3 | h_7 =>
    dsimp only at h
    split at h <;> exact .inl h
  -- `xdg_toplevel.set_min_size` and `xdg_toplevel.set_max_size`
  case h_13 | h_14 => exact hlimit _ _ h
  all_goals exact .inl h

/-! ## Section 2: Requests -/

/-- The object a request creates, if it does. -/
inductive Creates (args : List BridgeArg) (s s' : State F) : Prop where
  | nothing (h : s' = s)
  | new (id : Id) (iface : Interface) (version : Nat) (kind : Kind) (role : Role) (data : Table Id)
      (hid : .newId id ∈ args) (hnew : s.checkNewId id = .ok ()) (hfits : role.Fits iface.name)
      (hrole : role.refs = [])
      (hkind : ∀ x ∈ kind.refs, x.2 = s.ref x.2.id ∧ (s.obj x.2.id).isSome)
      (h : s' = { s.create .bridge id iface version kind role with data := data })

/-- The object a request destroys, if it does. -/
inductive Ends (id : Id) (s s' : State F) : Prop where
  | nothing (h : s' = s)
  | gone (hid : (s.obj id).isSome) (h : s' = (s.destroy id).deleteId id)

/-- What a request does: bookkeeping, an object it creates, more bookkeeping, and the end
of the object it is a request of. -/
structure Requested (m : Request) (s s' : State F) : Prop where
  parts : ∃ t u v, Quiet s t ∧ Creates m.args t u ∧ Quiet u v ∧ Ends m.sender v s'

theorem Creates.forwarded {args : List BridgeArg} {s : State F} {id : Id} (hid : .newId id ∈ args)
    (hnew : s.checkNewId id = .ok ()) (iface : Interface) (version : Nat) (up : ObjectId) {role : Role}
    (hfits : role.Fits iface.name) (hrole : role.refs = []) :
    Creates args s (s.createForwarded id iface version up role) :=
  .new id iface version (.upstream (some up)) role _ hid hnew hfits hrole (fun _ hx => (nomatch hx)) rfl

theorem Creates.isSome {args : List BridgeArg} {s s' : State F} (h : Creates args s s') {id : Id}
    (hid : (s.obj id).isSome) : (s'.obj id).isSome := by
  cases h with
  | nothing h =>
      rw [h]
      exact hid
  | new j iface version kind role data _ _ _ _ _ h =>
      rw [h]
      show ((s.create .bridge j iface version kind role).obj id).isSome
      rw [obj_create]
      split
      · rfl
      · exact hid

theorem refs_forInterface (name : String) : (Role.forInterface name).refs = [] := by
  unfold Role.forInterface
  split
  · rfl
  split
  · rfl
  split
  · rfl
  split
  · rfl
  split
  · rfl
  split <;> rfl

theorem refs_boundRole (iface : String) (name : Nat) : (boundRole iface name).refs = [] := by
  unfold boundRole
  split
  · rfl
  · exact refs_forInterface iface

private theorem creates_createChild {args : List BridgeArg} {s : State F} {child : Option (Id × String)}
    (hnew : ∀ id name, child = some (id, name) → .newId id ∈ args ∧ s.checkNewId id = .ok ())
    (version : Nat) (sent : Option ObjectId) : Creates args s (s.createChild E child version sent) := by
  unfold createChild
  split
  · exact .nothing rfl
  · rename_i id name
    obtain ⟨hid, hchecked⟩ := hnew id name rfl
    dsimp only
    split
    · exact .forwarded hid hchecked _ _ _ (Role.fits_forInterface _) (refs_forInterface _)
    · exact .new id _ version (.upstream none) .none s.data hid hchecked (fun h => (nomatch h)) rfl
        (fun _ hx => (nomatch hx)) rfl

private theorem requested_complete {m : Request} {s s₀ : State F} {obj : Obj} {desc : MessageDesc}
    {up : Option ObjectId} {answer : Answer} {after : After} {out : Outgoing} (hquiet : Quiet s₀ s)
    (hsender : (s.obj m.sender).isSome)
    (hnew : ∀ id name, out.child = some (id, name) → .newId id ∈ m.args ∧ s.checkNewId id = .ok ()) :
    Requested m s₀ (s.complete E obj desc up m.sender answer after out) := by
  unfold complete
  generalize (if out.dead then none else up.bind fun _ => answer.sent) = sent
  have hpass := (s.still_pass up sent desc.name out.args).toQuiet
  have hchild : Creates m.args _ ((s.pass up sent desc.name out.args).createChild E out.child
      obj.version sent) :=
    creates_createChild (fun id name hchild =>
      (hnew id name hchild).imp_right (hpass.checkNewId id).trans) _ _
  have happly := quiet_apply ((s.pass up sent desc.name out.args).createChild E out.child obj.version
    sent) m.sender (out.child.map Prod.fst) after
  refine ⟨_, _, _, hquiet.trans hpass, hchild, happly, ?_⟩
  dsimp only
  split
  · apply Ends.gone _ rfl
    rw [happly.obj_isSome]
    apply hchild.isSome
    rw [hpass.obj_isSome]
    exact hsender
  · exact .nothing rfl

private theorem requested_forward {s s' : State F} {obj : Obj} {desc : MessageDesc} {up : Option ObjectId}
    {m : Request} {answer : Answer} (hsender : (s.obj m.sender).isSome)
    (h : s.forward E obj desc up m answer = .ok s') : Requested m s s' := by
  have hbefore := s.quiet_beforeRequest (E := E) m.sender obj.iface.name desc.name m.args
  unfold forward at h
  dsimp only at h
  split at h
  · cases h
    exact ⟨_, _, _, hbefore, .nothing rfl, Quiet.refl _, .nothing rfl⟩
  obtain ⟨out, htranslate, h⟩ := bind_eq_ok h
  cases h
  apply requested_complete hbefore
  · rw [hbefore.obj_isSome]
    exact hsender
  · intro id name hchild
    obtain ⟨hid, hnew⟩ := newId_of_translate htranslate hchild
    refine ⟨?_, hnew⟩
    rcases mem_args_beforeRequest hid with hid | ⟨v, hid⟩
    · exact hid
    · cases hid

private theorem requested_displayRequest {s s' : State F} {desc : MessageDesc} {m : Request} {answer : Answer}
    (h : s.displayRequest E desc m answer = .ok s') : Requested m s s' := by
  unfold displayRequest at h
  split at h
  · rename_i child hargs
    have hid : .newId child ∈ m.args := by simp [hargs]
    obtain ⟨_, hnew, h⟩ := bind_eq_ok h
    split at h
    · cases h
    · split at h
      · cases h
      · have hcreated := fun name up => Creates.forwarded hid hnew (E.table name) 1 up
          (Role.fits_forInterface _) (refs_forInterface _)
        dsimp only at h
        split at h
        · cases h
          exact ⟨_, _, _, Quiet.refl s, hcreated _ _, (Still.note _ rfl).toQuiet, .nothing rfl⟩
        · cases h
          exact ⟨_, _, _, Quiet.refl s, hcreated _ _, Quiet.refl _, .nothing rfl⟩
  · cases h

private theorem requested_bind {s s' : State F} {m : Request} {registry : Option ObjectId} {answer : Answer}
    (h : s.bind E m registry answer = .ok s') : Requested m s s' := by
  unfold bind at h
  split at h
  · rename_i name ifaceName version child hargs
    have hid : .newId child ∈ m.args := by simp [hargs]
    obtain ⟨_, hnew, h⟩ := bind_eq_ok h
    dsimp only at h
    split at h
    · split at h
      · cases h
      · cases h
        exact ⟨_, _, _, Quiet.refl s, .new child _ _ .decorationManager .none s.data hid hnew
          (fun h => (nomatch h)) rfl (fun _ hx => (nomatch hx)) rfl, Quiet.refl _, .nothing rfl⟩
    · split at h
      · cases h
      · split at h
        · cases h
        · split at h
          · cases h
            exact ⟨_, _, _, Quiet.refl s, .forwarded hid hnew _ _ _ (fits_boundRole _ _)
              (refs_boundRole _ _), Quiet.refl _, .nothing rfl⟩
          · cases h
  · cases h

private theorem requested_managerRequest {s s' : State F} {m : Request} (hsender : (s.obj m.sender).isSome)
    (h : s.managerRequest E m = .ok s') : Requested m s s' := by
  unfold managerRequest at h
  split at h
  · cases h
    exact ⟨_, _, _, Quiet.refl s, .nothing rfl, Quiet.refl s, .gone hsender rfl⟩
  · rename_i id toplevel _ hargs
    have hid : .newId id ∈ m.args := by simp [hargs]
    obtain ⟨_, hnew, h⟩ := bind_eq_ok h
    split at h
    · rename_i t htoplevel
      cases h
      refine ⟨_, _, _, Quiet.refl s, .new id _ _ (.decoration (s.ref toplevel)) .none s.data hid hnew
        (fun h => (nomatch h)) rfl ?_ rfl, Quiet.refl _, .nothing rfl⟩
      -- The toplevel is there, with its role.
      intro x hx
      rw [List.mem_singleton.mp hx]
      refine ⟨rfl, ?_⟩
      have hsome := congrArg Option.isSome htoplevel
      rw [role, Option.isSome_map] at hsome
      exact hsome
    · cases h
  · cases h

private theorem requested_decorationRequest {s s' : State F} {m : Request} {toplevel : Id} {answer : Answer}
    (hsender : (s.obj m.sender).isSome)
    (h : s.decorationRequest E m toplevel answer = .ok s') : Requested m s s' := by
  have hmode := fun mode => (s.still_setMode (E := E) m.sender toplevel mode answer.framed).toQuiet
  unfold decorationRequest at h
  split at h
  · cases h
    have hremoved := (s.still_removeFrame toplevel).toQuiet
    refine ⟨_, _, _, hremoved, .nothing rfl, Quiet.refl _, .gone ?_ rfl⟩
    rw [hremoved.obj_isSome]
    exact hsender
  · split at h
    · cases h
      exact ⟨_, _, _, hmode _, .nothing rfl, Quiet.refl _, .nothing rfl⟩
    · cases h
  · cases h
    exact ⟨_, _, _, hmode _, .nothing rfl, Quiet.refl _, .nothing rfl⟩
  · cases h

theorem requested_of_request {s s' : State F} {m : Request} {answer : Answer}
    (h : s.request E m answer = .ok s') : Requested m s s' := by
  unfold request at h
  split at h
  · cases h
  rename_i obj hobj
  have hsender : (s.obj m.sender).isSome := by
    rw [hobj]
    rfl
  split at h
  · cases h
  split at h
  · cases h
  split at h
  · cases h
  split at h
  · exact requested_displayRequest h
  · exact requested_managerRequest hsender h
  · exact requested_decorationRequest hsender h
  · split at h
    · exact requested_bind h
    · exact requested_forward hsender h

theorem requested_of_step {s s' : State F} {m : Request} {answer : Answer}
    (h : step E s (.request m answer) = some s') : Requested m s s' := by
  change (s.request E m answer).toOption = some s' at h
  cases hreq : s.request E m answer with
  | error fault =>
      rw [hreq] at h
      cases h
  | ok t =>
      rw [hreq] at h
      cases h
      exact requested_of_request hreq

/-! ## Section 3: What a Request Is -/

/-- A request that does not end the proxy: a request its object has, with arguments of its
types, taken by what the object is. -/
theorem request_cases {s s' : State F} {m : Request} {answer : Answer}
    (h : s.request E m answer = .ok s') :
    ∃ obj desc, s.obj m.sender = some obj ∧ obj.iface.requests[m.opcode]? = some desc ∧
      wellTyped m.args desc.signature ∧ desc.since ≤ obj.version ∧
        (obj.kind = .display ∧ s.displayRequest E desc m answer = .ok s' ∨
          obj.kind = .decorationManager ∧ s.managerRequest E m = .ok s' ∨
          (∃ toplevel : Ref, obj.kind = .decoration toplevel ∧
            s.decorationRequest E m toplevel.id answer = .ok s') ∨
          ∃ up, obj.kind = .upstream up ∧
            (obj.iface.name = "wl_registry" ∧ s.bind E m up answer = .ok s' ∨
              obj.iface.name ≠ "wl_registry" ∧ s.forward E obj desc up m answer = .ok s')) := by
  unfold request at h
  split at h
  -- No object has the id.
  · cases h
  rename_i obj hobj
  split at h
  -- Its interface has no such request.
  · cases h
  rename_i desc hdesc
  split at h
  -- The arguments are of other types.
  · cases h
  rename_i htyped
  split at h
  -- The object's version is older than the request.
  · cases h
  rename_i hsince
  refine ⟨obj, desc, hobj, hdesc, by simpa using htyped, not_lt.mp hsince, ?_⟩
  split at h
  · rename_i hkind
    exact .inl ⟨hkind, h⟩
  · rename_i hkind
    exact .inr (.inl ⟨hkind, h⟩)
  · rename_i toplevel hkind
    exact .inr (.inr (.inl ⟨toplevel, hkind, h⟩))
  · rename_i up hkind
    refine .inr (.inr (.inr ⟨up, hkind, ?_⟩))
    split at h
    · rename_i hregistry
      exact .inl ⟨hregistry, h⟩
    · rename_i hregistry
      exact .inr ⟨hregistry, h⟩

/-- A request on the display creates an object, and tells the bridge of the proxy's global. -/
theorem displayRequest_cases {s s' : State F} {desc : MessageDesc} {m : Request} {answer : Answer}
    (h : s.displayRequest E desc m answer = .ok s') :
    ∃ child name up, m.args = [.newId child] ∧ s.checkNewId child = .ok () ∧ answer.sent = some up ∧
      (s' = s.createForwarded child (E.table name) 1 up (Role.forInterface (E.table name).name) ∨
        ∃ args, s' = (s.createForwarded child (E.table name) 1 up
          (Role.forInterface (E.table name).name)).note (.own child "global" args)) := by
  unfold displayRequest at h
  split at h
  · rename_i child hargs
    obtain ⟨_, hnew, h⟩ := bind_eq_ok h
    split at h
    · cases h
    · rename_i name _
      split at h
      · cases h
      · rename_i up hsent
        refine ⟨child, name, up, hargs, hnew, hsent, ?_⟩
        dsimp only at h
        split at h
        · cases h
          exact .inr ⟨_, rfl⟩
        · cases h
          exact .inl rfl
  · cases h

/-- The manager goes, or makes a decoration for a toplevel. -/
theorem managerRequest_cases {s s' : State F} {m : Request} (h : s.managerRequest E m = .ok s') :
    m.opcode = 0 ∧ s' = (s.destroy m.sender).deleteId m.sender ∨
      m.opcode = 1 ∧ ∃ id toplevel, s.checkNewId id = .ok () ∧ s' = s.create .bridge id
        (E.table toplevelDecorationName) 1 (.decoration (s.ref toplevel)) .none := by
  unfold managerRequest at h
  split at h
  · rename_i hopcode _
    cases h
    exact .inl ⟨hopcode, rfl⟩
  · rename_i id toplevel hopcode _
    obtain ⟨_, hnew, h⟩ := bind_eq_ok h
    split at h
    · cases h
      exact .inr ⟨hopcode, id, toplevel, hnew, rfl⟩
    · cases h
  · cases h

/-- A decoration adds or removes a frame and says which mode that is, or goes. -/
theorem decorationRequest_cases {s s' : State F} {m : Request} {toplevel : Id} {answer : Answer}
    (h : s.decorationRequest E m toplevel answer = .ok s') :
    m.opcode = 0 ∧ s' = ((s.removeFrame toplevel).destroy m.sender).deleteId m.sender ∨
      m.opcode ≠ 0 ∧ ((∃ t mode, s.addFrame E toplevel answer.framed = some t ∧
          s' = t.note (.own m.sender "configure" [.uint mode])) ∨
        (∃ mode, s.addFrame E toplevel answer.framed = none ∧
          s' = s.note (.own m.sender "configure" [.uint mode])) ∨
        ∃ mode, s' = (s.removeFrame toplevel).note (.own m.sender "configure" [.uint mode])) := by
  have hmode : ∀ mode, s.setMode E m.sender toplevel mode answer.framed = s' →
      (∃ t mode, s.addFrame E toplevel answer.framed = some t ∧
        s' = t.note (.own m.sender "configure" [.uint mode])) ∨
      (∃ mode, s.addFrame E toplevel answer.framed = none ∧
        s' = s.note (.own m.sender "configure" [.uint mode])) ∨
      ∃ mode, s' = (s.removeFrame toplevel).note (.own m.sender "configure" [.uint mode]) := by
    intro mode hs
    unfold setMode at hs
    split at hs
    · split at hs
      · rename_i t ht
        exact .inl ⟨t, _, ht, hs.symm⟩
      · rename_i hnone
        exact .inr (.inl ⟨_, hnone, hs.symm⟩)
    · exact .inr (.inr ⟨_, hs.symm⟩)
  unfold decorationRequest at h
  split at h
  · rename_i hopcode _
    cases h
    exact .inl ⟨hopcode, rfl⟩
  · rename_i hopcode _
    split at h
    · exact .inr ⟨by simp [hopcode], hmode _ (Except.ok.inj h)⟩
    · cases h
  · rename_i hopcode _
    exact .inr ⟨by simp [hopcode], hmode _ (Except.ok.inj h)⟩
  · cases h

/-- What is bound is the proxy's manager, or a global of the compositor's. -/
theorem bind_cases {s s' : State F} {m : Request} {registry : Option ObjectId} {answer : Answer}
    (h : s.bind E m registry answer = .ok s') :
    ∃ child, .newId child ∈ m.args ∧ s.checkNewId child = .ok () ∧
      ((∃ version, s' = s.create .bridge child (E.table decorationManagerName) version
          .decorationManager .none) ∨
        ∃ global version up name, answer.sent = some up ∧
          s' = s.createForwarded child global version up (boundRole global.name name)) := by
  unfold bind at h
  split at h
  · rename_i name ifaceName version child hargs
    refine ⟨child, by simp [hargs], ?_⟩
    obtain ⟨_, hnew, h⟩ := bind_eq_ok h
    refine ⟨hnew, ?_⟩
    dsimp only at h
    split at h
    · split at h
      · cases h
      · cases h
        exact .inl ⟨_, rfl⟩
    · split at h
      · cases h
      · split at h
        · cases h
        · split at h
          · cases h
            exact .inr ⟨_, _, _, _, by assumption, rfl⟩
          · cases h
  · cases h

/-- A request is kept from the compositor, or translated and completed. -/
theorem forward_cases {s s' : State F} {obj : Obj} {desc : MessageDesc} {up : Option ObjectId}
    {m : Request} {answer : Answer} (h : s.forward E obj desc up m answer = .ok s') :
    let before := s.beforeRequest E m.sender obj.iface.name desc.name m.args
    before.2.2 = false ∧ s' = before.1 ∨
      ∃ out, before.2.2 = true ∧ before.1.translate obj.iface.name desc before.2.1 desc.signature
          desc.argInterfaces = .ok out ∧
        s' = before.1.complete E obj desc up m.sender answer
          (before.1.afterRequest E m.sender obj.iface.name desc.name before.2.1) out := by
  unfold forward at h
  dsimp only at h ⊢
  split at h
  · rename_i hkept
    cases h
    exact .inl ⟨by simpa using hkept, rfl⟩
  · rename_i hout
    obtain ⟨out, htranslate, h⟩ := bind_eq_ok h
    cases h
    exact .inr ⟨out, by simpa using hout, htranslate, rfl⟩

/-- A request on an object of the compositor's, other than the registry. -/
theorem forward_of_request {s s' : State F} {m : Request} {answer : Answer} {o : Obj} {desc : MessageDesc}
    (ho : s.obj m.sender = some o) (hdesc : o.iface.requests[m.opcode]? = some desc) {up : Option ObjectId}
    (hkind : o.kind = .upstream up) (hregistry : o.iface.name ≠ "wl_registry")
    (hs : s.request E m answer = .ok s') :
    wellTyped m.args desc.signature ∧ s.forward E o desc up m answer = .ok s' := by
  obtain ⟨o', desc', ho', hdesc', htyped, _, hcases⟩ := request_cases hs
  obtain rfl := Option.some.inj (ho.symm.trans ho')
  obtain rfl := Option.some.inj (hdesc.symm.trans hdesc')
  rw [hkind] at hcases
  rcases hcases with ⟨hk, _⟩ | ⟨hk, _⟩ | ⟨_, hk, _⟩ | ⟨_, hk, ⟨hname, _⟩ | ⟨_, hs⟩⟩
  · cases hk
  · cases hk
  · cases hk
  · exact absurd hname hregistry
  · cases hk
    exact ⟨htyped, hs⟩

/-! ## Section 4: Events -/

/-- What taking the arguments of an event in keeps: what creating its objects does, and
what ending the proxy does. -/
theorem receive_induction {P : State F → Prop} {desc : MessageDesc} {version : Nat}
    {alive : ObjectId → Bool}
    (hserve : ∀ s iface up, P s → P ({ s with nextServerId := s.nextServerId + 1 }.create .compositor
      s.nextServerId iface version (.upstream up) (Role.forInterface iface.name)))
    (hfailed : ∀ s, P s → P { s with failed := true }) (args : List UpstreamArg) (s : State F)
    (h : P s) : P (s.receive E desc version alive args).1 := by
  induction args generalizing s with
  | nil => exact h
  | cons a args ih =>
      cases a with
      | object up =>
          cases up with
          | none => exact ih s h
          | some up =>
              unfold receive
              split
              · exact ih s h
              · exact ih s h
      | newId up =>
          unfold receive
          split
          · exact h
          · dsimp only
            split
            · exact ih _ (hserve _ _ _ h)
            · exact hfailed s h
      | int _ | uint _ | fixed _ | str _ | array _ | fd _ => exact ih s h

/-- What an event is, and the object it is for. -/
structure Taken (s : State F) (e : Event) (bridge : Id) (o : Obj) (desc : MessageDesc) : Prop where
  data : s.data.lookup e.sender = some bridge
  found : s.obj bridge = some o
  kind : o.kind = .upstream (some e.sender)
  known : o.iface.events[e.opcode]? = some desc

/-- The object an event is for, computed. -/
def receiver (s : State F) (e : Event) : Option (Id × Obj × MessageDesc) :=
  (s.data.lookup e.sender).bind fun bridge => (s.obj bridge).bind fun o =>
    if o.kind = .upstream (some e.sender) then
      (o.iface.events[e.opcode]?).map fun desc => (bridge, o, desc)
    else none

theorem receiver_eq_some {s : State F} {e : Event} {bridge : Id} {o : Obj} {desc : MessageDesc} :
    s.receiver e = some (bridge, o, desc) ↔ Taken s e bridge o desc := by
  unfold receiver
  constructor
  · intro h
    obtain ⟨bridge', hdata, h⟩ := Option.bind_eq_some_iff.mp h
    obtain ⟨o', hfound, h⟩ := Option.bind_eq_some_iff.mp h
    split at h
    · rename_i hkind
      obtain ⟨desc', hknown, h⟩ := Option.map_eq_some_iff.mp h
      cases h
      exact ⟨hdata, hfound, hkind, hknown⟩
    · cases h
  · intro h
    simp only [h.data, h.found, h.kind, h.known, Option.bind_some, if_true, Option.map_some]

theorem Taken.unique {s : State F} {e : Event} {bridge bridge' : Id} {o o' : Obj}
    {desc desc' : MessageDesc} (h : Taken s e bridge o desc) (h' : Taken s e bridge' o' desc') :
    bridge = bridge' ∧ o = o' ∧ desc = desc' := by
  cases h.data.symm.trans h'.data
  cases h.found.symm.trans h'.found
  cases h.known.symm.trans h'.known
  exact ⟨rfl, rfl, rfl⟩

/-- What an event does: nothing, when it is for no object; or it is dropped at once; or it
is delivered. -/
theorem event_cases (s : State F) (e : Event) :
    (∀ bridge o desc, ¬Taken s e bridge o desc) ∧ s.event E e = s ∨
      ∃ bridge o desc, Taken s e bridge o desc ∧
        ((s.receive E desc o.version e.alive e.args).2 = none ∧
            s.event E e = (s.receive E desc o.version e.alive e.args).1 ∨
          ∃ input, (s.receive E desc o.version e.alive e.args).2 = some input ∧
            s.event E e =
              (s.receive E desc o.version e.alive e.args).1.deliver E bridge o.iface desc e input) := by
  unfold event
  split
  -- The connection has no data for the object.
  · rename_i hdata
    left
    refine ⟨fun bridge o desc ht => ?_, rfl⟩
    cases hdata.symm.trans ht.data
  rename_i bridge hdata
  split
  -- The bridge's object is gone.
  · rename_i hobj
    left
    refine ⟨fun bridge' o desc ht => ?_, rfl⟩
    cases hdata.symm.trans ht.data
    cases hobj.symm.trans ht.found
  rename_i obj hobj
  split
  -- The bridge's object forwards another one by now.
  · rename_i hkind
    left
    refine ⟨fun bridge' o desc ht => ?_, rfl⟩
    cases hdata.symm.trans ht.data
    cases hobj.symm.trans ht.found
    exact hkind ht.kind
  rename_i hkind
  split
  -- Its interface has no such event.
  · rename_i hdesc
    left
    refine ⟨fun bridge' o desc ht => ?_, rfl⟩
    cases hdata.symm.trans ht.data
    cases hobj.symm.trans ht.found
    cases hdesc.symm.trans ht.known
  rename_i desc hdesc
  right
  refine ⟨bridge, obj, desc, ⟨hdata, hobj, not_not.mp hkind, hdesc⟩, ?_⟩
  dsimp only
  cases hinput : (s.receive E desc obj.version e.alive e.args).2 with
  | none => exact .inl ⟨rfl, rfl⟩
  | some input => exact .inr ⟨input, rfl, rfl⟩

/-- What delivering an event does: bookkeeping, the event for the bridge, or not, and the
end of an object that the event destroys. -/
structure Delivered (s s' : State F) (bridge : Id) (iface : Interface) (desc : MessageDesc) (e : Event)
    (input : Incoming) (out : State F × List BridgeArg × Bool) : Prop where
  quiet : Quiet s out.1
  parts : ∃ data t, Ends bridge (if out.2.2 then
      out.1.note (.event bridge e.sender desc.name e.args out.2.1) else out.1) t ∧
    s' = { t with data := data }

theorem delivered_deliver {s : State F} {bridge : Id} (hbridge : (s.obj bridge).isSome)
    (iface : Interface) (desc : MessageDesc) (e : Event) (input : Incoming) :
    Delivered s (s.deliver E bridge iface desc e input) bridge iface desc e input
      (s.beforeEvent E bridge iface.name desc.name input.hidden input.args) := by
  have hquiet := s.quiet_beforeEvent (E := E) bridge iface.name desc.name input.hidden input.args
  refine ⟨hquiet, ?_⟩
  have hends : ∀ t : State F, (t.obj bridge).isSome →
      Ends bridge t (if desc.isDestructor then (t.destroy bridge).deleteId bridge else t) := by
    intro t ht
    split
    · exact .gone ht rfl
    · exact .nothing rfl
  have hout : ∀ (passes : Bool) (entry : Entry) (t : State F), (t.obj bridge).isSome →
      ((if passes then t.note entry else t).obj bridge).isSome := by
    intro passes entry t ht
    cases passes <;> exact ht
  have hbridge' := (hquiet.obj_isSome bridge).trans hbridge
  unfold deliver
  cases input.child with
  | none => exact ⟨_, _, hends _ (hout _ _ _ hbridge'), rfl⟩
  | some child => exact ⟨_, _, hends _ (hout _ _ _ hbridge'), rfl⟩

end State

end Psbox.Decorations
