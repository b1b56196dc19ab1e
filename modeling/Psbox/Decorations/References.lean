import Psbox.Decorations.Ids

/-!
# Recorded Ids

Objects record each other by their ids, and an id is the bridge's to use again once it was
told that the object is deleted. In a run in which no request creates an object under an
id that is still recorded somewhere, every recorded id denotes the object it was recorded
for, or none.

The condition is needed: a `wp_viewport` may outlive its `wl_surface`, and the protocol
lets the surface's id go to another.
-/

namespace Psbox.Decorations

open Psbox.Foundations

variable {F : Type} {E : Setting F}

/-! ## Section 1: The Condition -/

/-- Every id that is recorded, with where. -/
def State.records (s : State F) : List (Id × Slot × Ref) :=
  (s.objects.entries.flatMap fun x => (x.2.role.refs ++ x.2.kind.refs).map fun r => (x.1, r)) ++
    s.frames.entries.flatMap fun x =>
      [(x.1, .frame, ⟨x.1, x.2.toplevel.born⟩), (x.1, .frame, x.2.surface)]

/-- Whether a request is an `xdg_surface`'s `get_toplevel`, which records another toplevel
in the place of the one before. -/
def State.getsToplevel (s : State F) (m : Request) : Bool :=
  match s.obj m.sender with
  | some { iface := iface, kind := .upstream _, .. } =>
      iface.name = "xdg_surface" ∧ (iface.requests[m.opcode]?).any fun desc => desc.name = "get_toplevel"
  | _ => false

/-- A request creates an object under an id that is recorded, and still will be. -/
def Reuses (s : State F) : Action → Prop
  | .request m _ => ∃ x ∈ s.records, .newId x.2.2.id ∈ m.args ∧
      ¬(x.1 = m.sender ∧ x.2.1 = .toplevel ∧ s.getsToplevel m)
  | _ => False

instance (s : State F) : DecidablePred (Reuses s)
  | .request m _ => inferInstanceAs (Decidable (∃ x ∈ s.records, .newId x.2.2.id ∈ m.args ∧
      ¬(x.1 = m.sender ∧ x.2.1 = .toplevel ∧ s.getsToplevel m)))
  | .event _ | .setOutput _ _ | .close _ => inferInstanceAs (Decidable False)

/-- Not the id of another object than the one it was recorded for. -/
def Ref.Current (s : State F) (r : Ref) : Prop :=
  ∀ b, r.born = some b → ∀ o, s.obj r.id = some o → o.born = b

namespace State

private theorem records_iff {s : State F} {holder : Id} {slot : Slot} {r : Ref} :
    (holder, slot, r) ∈ s.records ↔ s.Records holder slot r := by
  unfold records Records
  rw [List.mem_append]
  -- A reference is held by an object, or by a frame.
  constructor
  · rintro (h | h)
    · left
      obtain ⟨⟨id, o⟩, hentry, h⟩ := List.mem_flatMap.mp h
      obtain ⟨x, hx, heq⟩ := List.mem_map.mp h
      cases heq
      exact ⟨o, AList.mem_lookup_iff.mpr hentry, List.mem_append.mp hx⟩
    · right
      obtain ⟨⟨t, f⟩, hentry, h⟩ := List.mem_flatMap.mp h
      have hlookup := AList.mem_lookup_iff.mpr hentry
      simp only [List.mem_cons, List.not_mem_nil, or_false] at h
      rcases h with h | h
      · cases h
        exact ⟨rfl, f, hlookup, .inl rfl⟩
      · cases h
        exact ⟨rfl, f, hlookup, .inr rfl⟩
  · rintro (⟨o, ho, h⟩ | ⟨rfl, f, hf, h⟩)
    · left
      apply List.mem_flatMap.mpr
      refine ⟨⟨holder, o⟩, AList.mem_lookup_iff.mp ho, ?_⟩
      exact List.mem_map.mpr ⟨(slot, r), List.mem_append.mpr h, rfl⟩
    · right
      apply List.mem_flatMap.mpr
      refine ⟨⟨holder, f⟩, AList.mem_lookup_iff.mp hf, ?_⟩
      rcases h with rfl | rfl
      · exact List.mem_cons_self
      · exact List.mem_cons_of_mem _ List.mem_cons_self

/-! ## Section 2: The Invariant -/

/-- Recorded ids are current, but for those in some places, and were given out. -/
structure RefsBut (X : Id → Slot → Prop) (s : State F) : Prop extends s.IdsKept where
  current : ∀ holder slot r, s.Records holder slot r → ¬X holder slot → r.Current s
  given : ∀ holder slot r, s.Records holder slot r → r.born ≠ none → r.id < s.nextServerId

private theorem current_ref (s : State F) (id : Id) : (s.ref id).Current s := by
  intro b hb o ho
  change s.obj id = some o at ho
  rw [ref, ho] at hb
  exact Option.some.inj hb

private theorem current_of_quiet {s t : State F} (hq : Quiet s t) {r : Ref} (h : r.Current s) : r.Current t := by
  intro b hb o ho
  have hborn := hq.born r.id
  rw [ho] at hborn
  obtain ⟨o', ho', hsame⟩ := Option.map_eq_some_iff.mp hborn.symm
  rw [← hsame]
  exact h b hb o' ho'

private theorem lt_next_of_obj {s : State F} (h : s.IdsKept) {id : Id} {o : Obj} (ho : s.obj id = some o) :
    id < s.nextServerId := by
  apply not_le.mp
  intro hle
  cases ho.symm.trans (h.unused id hle)

private theorem ref_given {s : State F} (h : s.IdsKept) {id : Id} (hborn : (s.ref id).born ≠ none) :
    id < s.nextServerId := by
  cases ho : s.obj id with
  | none =>
      rw [ref, ho] at hborn
      exact absurd rfl hborn
  | some o => exact lt_next_of_obj h ho

/-- The end of an object leaves the other records, and the other objects. -/
theorem records_of_ends {s s' : State F} {id : Id} (he : Ends id s s') {holder : Id} {slot : Slot}
    {r : Ref} (hr : s'.Records holder slot r) :
    s.Records holder slot r ∧ ∀ j o, s'.obj j = some o → s.obj j = some o := by
  -- The object ends, or there is nothing that ends.
  cases he with
  | nothing hs =>
      rw [hs] at hr ⊢
      exact ⟨hr, fun _ _ ho => ho⟩
  | gone _ hs =>
      have hobj : ∀ j o, s'.obj j = some o → s.obj j = some o := by
        intro j o ho
        rw [hs, obj_deleteId, obj_destroy] at ho
        split at ho
        · cases ho
        · exact ho
      refine ⟨?_, hobj⟩
      rcases hr with ⟨o, ho, hr⟩ | ⟨hslot, f, hf, hr⟩
      · exact .inl ⟨o, hobj holder o ho, hr⟩
      · right
        refine ⟨hslot, f, ?_, hr⟩
        rw [hs] at hf
        unfold deleteId at hf
        split at hf <;> exact hf

private theorem next_of_ends {s s' : State F} {id : Id} (he : Ends id s s') :
    s'.nextServerId = s.nextServerId := by
  cases he with
  | nothing hs => rw [hs]
  | gone _ hs =>
      rw [hs]
      unfold deleteId
      split <;> rfl

namespace RefsBut

variable {X : Id → Slot → Prop} {s s' : State F}

theorem of_quiet (h : s.RefsBut X) (hq : Quiet s s') : s'.RefsBut X := by
  refine ⟨h.toIdsKept.of_quiet hq, ?_, ?_⟩
  · intro holder slot r hr hX
    apply current_of_quiet hq
    -- A reference that is new was made just now, of a living object.
    rcases hq.refs holder slot r hr with hr | hr
    · exact h.current holder slot r hr hX
    · rw [hr]
      exact s.current_ref r.id
  · intro holder slot r hr hborn
    rw [hq.next]
    rcases hq.refs holder slot r hr with hr | hr
    · exact h.given holder slot r hr hborn
    · rw [hr] at hborn
      exact ref_given h.toIdsKept hborn

/-- An object is created, under an id that no record is of. -/
theorem create (h : s.RefsBut X) {origin : Origin} {id next : Id} {iface : Interface} {version : Nat}
    {kind : Kind} {role : Role} (hnone : s.obj id = none) (hrole : role.refs = [])
    (hkind : ∀ x ∈ kind.refs, x.2 = s.ref x.2.id ∧ (s.obj x.2.id).isSome)
    (hfree : ∀ holder slot r, s.Records holder slot r → ¬X holder slot → r.id = id → r.born = none)
    (hnext : s.nextServerId ≤ next)
    (hkept : ({ s with nextServerId := next }.create origin id iface version kind role).IdsKept) :
    ({ s with nextServerId := next }.create origin id iface version kind role).RefsBut X := by
  -- What is recorded then was recorded before, or belongs to the new object.
  have hrecords : ∀ holder slot r,
      ({ s with nextServerId := next }.create origin id iface version kind role).Records holder slot r →
        s.Records holder slot r ∨ r = s.ref r.id ∧ (s.obj r.id).isSome := by
    rintro holder slot r (⟨o, ho, hr⟩ | hr)
    · rw [obj_create] at ho
      split at ho
      · rw [← Option.some.inj ho] at hr
        rcases hr with hr | hr
        · rw [hrole] at hr
          cases hr
        · exact .inr (hkind (slot, r) hr)
      · exact .inl (.inl ⟨o, ho, hr⟩)
    · exact .inl (.inr hr)
  refine ⟨hkept, ?_, ?_⟩
  · intro holder slot r hr hX b hb o ho
    rw [obj_create] at ho
    -- An old reference does not have the new object's id.
    rcases hrecords holder slot r hr with hr | ⟨hr, hsome⟩
    · split at ho
      · rename_i hid
        rw [hfree holder slot r hr hX hid] at hb
        cases hb
      · exact h.current holder slot r hr hX b hb o ho
    · split at ho
      · rename_i hid
        rw [hid, hnone] at hsome
        cases hsome
      · rw [hr] at hb
        exact s.current_ref r.id b hb o ho
  · intro holder slot r hr hborn
    apply lt_of_lt_of_le _ hnext
    rcases hrecords holder slot r hr with hr | ⟨hr, _⟩
    · exact h.given holder slot r hr hborn
    · rw [hr] at hborn
      exact ref_given h.toIdsKept hborn

theorem with_data (h : s.RefsBut X) (data : Table Id) : { s with data := data }.RefsBut X :=
  ⟨h.toIdsKept.with_data data, h.current, h.given⟩

theorem creates (h : s.RefsBut X) {args : List BridgeArg}
    (hfree : ∀ holder slot r, s.Records holder slot r → ¬X holder slot → .newId r.id ∈ args →
      s.obj r.id = none → r.born = none)
    (hc : Creates args s s') : s'.RefsBut X := by
  -- Either nothing is made, or one object.
  cases hc with
  | nothing hs =>
      rw [hs]
      exact h
  | new id iface version kind role data hid hnew _ hrole hkind hs =>
      have hnone := (checkNewId_eq_ok.mp hnew).2.2
      rw [hs]
      apply with_data
      apply h.create hnone hrole hkind _ (le_refl _) (h.toIdsKept.create_bridge hnew _ _ _ _)
      intro holder slot r hr hX hrid
      exact hfree holder slot r hr hX (hrid ▸ hid) (hrid ▸ hnone)

theorem ends (h : s.RefsBut X) {id : Id} (he : Ends id s s') : s'.RefsBut X := by
  refine ⟨h.toIdsKept.ends he, ?_, ?_⟩
  · intro holder slot r hr hX b hb o ho
    obtain ⟨hr', ho'⟩ := records_of_ends he hr
    exact h.current holder slot r hr' hX b hb o (ho' _ _ ho)
  · intro holder slot r hr hborn
    rw [next_of_ends he]
    exact h.given holder slot r (records_of_ends he hr).1 hborn

/-- A request whose new objects are under ids that no record is of, but in some places. -/
theorem requested (h : s.RefsBut fun _ _ => False) {m : Request}
    (hfree : ∀ holder slot r, s.Records holder slot r → ¬X holder slot → .newId r.id ∉ m.args)
    (hr : Requested m s s') : s'.RefsBut X := by
  obtain ⟨t, u, v, hbefore, hcreates, hafter, hends⟩ := hr.parts
  -- Before the object is made every reference is current.
  have hall := h.of_quiet hbefore
  have hbut : t.RefsBut X := ⟨hall.toIdsKept, fun holder slot r hr _ => hall.current holder slot r hr id,
    hall.given⟩
  apply ends _ hends
  apply of_quiet _ hafter
  apply hbut.creates _ hcreates
  intro holder slot r hr hX hid hnone
  rcases hbefore.refs holder slot r hr with hr | hr
  · exact absurd hid (hfree holder slot r hr hX)
  · -- It was recorded now, while no object had the id.
    have hsome := hbefore.obj_isSome r.id
    rw [hnone] at hsome
    have hnone' : s.obj r.id = none := by simpa using hsome.symm
    rw [hr, ref, hnone']
    rfl

theorem serve (h : s.RefsBut X) {iface : Interface} (version : Nat) (up : Option ObjectId) {role : Role}
    (hrole : role.refs = []) :
    ({ s with nextServerId := s.nextServerId + 1 }.create .compositor s.nextServerId iface version
      (.upstream up) role).RefsBut X := by
  apply h.create (h.unused _ (le_refl _)) hrole _ _ (Nat.le_succ _)
    (h.toIdsKept.create_compositor _ _ _ _)
  · intro x hx
    cases hx
  · intro holder slot r hr _ hid
    by_contra hborn
    have hlt := h.given holder slot r hr hborn
    rw [hid] at hlt
    exact absurd hlt (lt_irrefl _)

theorem receive (h : s.RefsBut X) (desc : MessageDesc) (version : Nat) (alive : ObjectId → Bool)
    (args : List UpstreamArg) : (s.receive E desc version alive args).1.RefsBut X := by
  apply receive_induction (P := RefsBut X)
  · intro t iface up ht
    exact ht.serve version up (refs_forInterface _)
  · intro t ht
    exact ⟨ht.toIdsKept.failed, ht.current, ht.given⟩
  · exact h

theorem delivered (h : s.RefsBut X) {bridge : Id} {iface : Interface} {desc : MessageDesc} {e : Event}
    {input : Incoming} {out : State F × List BridgeArg × Bool}
    (hup : s.upstream bridge = some (some e.sender))
    (hd : Delivered s s' bridge iface desc e input out) : s'.RefsBut X := by
  obtain ⟨data, t, hends, hs⟩ := hd.parts
  have hquiet := h.of_quiet hd.quiet
  rw [hs]
  apply with_data
  apply ends _ hends
  split
  · exact ⟨hquiet.toIdsKept.event ((hd.quiet.upstream bridge).trans hup) _ _ _, hquiet.current,
      hquiet.given⟩
  · exact hquiet

end RefsBut

/-! ## Section 3: Getting a Toplevel -/

private theorem toplevel_of_records {s : State F} {holder : Id} {r : Ref} (h : s.Records holder .toplevel r) :
    ∃ x, s.role holder = some (.xdgSurface x (some r)) := by
  rcases h with ⟨o, ho, hr | hr⟩ | ⟨hslot, _⟩
  · have hrole : s.role holder = some o.role := by
      rw [role, ho]
      rfl
    rw [hrole]
    cases hcase : o.role <;> rw [hcase] at hr <;> simp [Role.refs] at hr
    rename_i x t
    exact ⟨x, by rw [hr]⟩
  · cases hkind : o.kind <;> rw [hkind] at hr <;> simp [Kind.refs] at hr
  · cases hslot

/-- The toplevel an `xdg_surface` records after its `get_toplevel` is the one it got. -/
theorem current_apply_toplevel {s : State F} {sender c : Id} (hne : c ≠ sender) {r : Ref}
    (hr : (s.apply sender (some c) .toplevel).Records sender .toplevel r) :
    r.Current (s.apply sender (some c) .toplevel) := by
  obtain ⟨x, hrole⟩ := toplevel_of_records hr
  -- What the surface records is the child it just got.
  have hcurrent := current_of_quiet (s.quiet_apply sender (some c) .toplevel) (s.current_ref c)
  have hr : r = s.ref c := by
    unfold apply setChildRole at hrole
    dsimp only at hrole
    rw [role_adjustRole, if_neg hne.symm, role_adjustRole, if_pos rfl] at hrole
    obtain ⟨before, _, hafter⟩ := Option.map_eq_some_iff.mp hrole
    cases before <;> cases hafter
    rfl
  rw [hr]
  exact hcurrent

private theorem current_complete {s : State F} {obj : Obj} {desc : MessageDesc} {up : Option ObjectId}
    {sender : Id} {answer : Answer} {out : Outgoing} (hsender : (s.obj sender).isSome)
    (hnew : ∀ id name, out.child = some (id, name) → s.checkNewId id = .ok ())
    (hcurrent : ∀ r, s.Records sender .toplevel r → r.Current s) {r : Ref}
    (hr : (s.complete E obj desc up sender answer .toplevel out).Records sender .toplevel r) :
    r.Current (s.complete E obj desc up sender answer .toplevel out) := by
  unfold complete at hr ⊢
  generalize (if out.dead then none else up.bind fun _ => answer.sent) = sent at hr ⊢
  dsimp only at hr ⊢
  have hpass := (s.still_pass up sent desc.name out.args).toQuiet
  generalize hv : State.apply _ sender (out.child.map Prod.fst) .toplevel = v at hr ⊢
  have hcurrent_v : v.Records sender .toplevel r → r.Current v := by
    intro hrv
    rw [← hv] at hrv ⊢
    cases hchild : out.child with
    | none =>
        rw [hchild] at hrv
        apply current_of_quiet hpass
        rcases hpass.refs sender .toplevel r hrv with hrv | hrv
        · exact hcurrent r hrv
        · rw [hrv]
          exact s.current_ref r.id
    | some c =>
        obtain ⟨id, name⟩ := c
        rw [hchild] at hrv
        apply current_apply_toplevel _ hrv
        -- The new object has an id that nothing had.
        rintro rfl
        rw [(checkNewId_eq_ok.mp (hnew id name hchild)).2.2] at hsender
        cases hsender
  split at hr
  · -- There is nothing to record it any more.
    obtain ⟨x, hrole⟩ := toplevel_of_records hr
    rw [role, obj_deleteId, obj_destroy, if_pos rfl] at hrole
    cases hrole
  · rename_i hstays
    rw [if_neg hstays]
    exact hcurrent_v hr

/-- What a request that gets a toplevel is. -/
theorem getsToplevel_iff {s : State F} {m : Request} (h : s.getsToplevel m) :
    ∃ o up desc, s.obj m.sender = some o ∧ o.kind = .upstream up ∧ o.iface.name = "xdg_surface" ∧
      o.iface.requests[m.opcode]? = some desc ∧ desc.name = "get_toplevel" := by
  unfold getsToplevel at h
  split at h
  · rename_i iface version up role born ho
    obtain ⟨hiface, hdesc⟩ := of_decide_eq_true h
    obtain ⟨desc, hknown, hname⟩ := exists_of_any hdesc
    exact ⟨_, up, desc, ho, rfl, hiface, hknown, of_decide_eq_true hname⟩
  · cases h

/-- After a `get_toplevel`, the toplevel the `xdg_surface` records is current. -/
theorem current_of_getsToplevel {s s' : State F} (h : s.RefsBut fun _ _ => False) {m : Request}
    {answer : Answer} (hr : s.request E m answer = .ok s') (hgets : s.getsToplevel m) {r : Ref}
    (hrecords : s'.Records m.sender .toplevel r) : r.Current s' := by
  obtain ⟨o, up, desc, ho, hkind, hiface, hdesc, hname⟩ := getsToplevel_iff hgets
  unfold request at hr
  rw [ho] at hr
  dsimp only at hr
  rw [hdesc] at hr
  dsimp only at hr
  split at hr
  · cases hr
  split at hr
  · cases hr
  rw [hkind] at hr
  dsimp only at hr
  rw [if_neg (by rw [hiface]; decide)] at hr
  have hbefore : s.beforeRequest E m.sender o.iface.name desc.name m.args = (s, m.args, true) := by
    rw [hiface, hname]
    rfl
  have hafter : s.afterRequest E m.sender o.iface.name desc.name m.args = .toplevel := by
    rw [hiface, hname]
    rfl
  unfold forward at hr
  rw [hbefore] at hr
  dsimp only at hr
  rw [hafter] at hr
  obtain ⟨out, htranslate, hr⟩ := bind_eq_ok hr
  cases hr
  apply current_complete _ _ _ hrecords
  · rw [ho]
    rfl
  · exact fun id name hchild => (newId_of_translate htranslate hchild).2
  · exact fun r' hr' => h.current m.sender .toplevel r' hr' id

/-! ## Section 4: Steps -/

namespace RefsBut

variable {s s' : State F}

theorem request (h : s.RefsBut fun _ _ => False) {m : Request} {answer : Answer}
    (hfree : ¬Reuses s (.request m answer)) (hr : s.request E m answer = .ok s') :
    s'.RefsBut fun _ _ => False := by
  -- The toplevel that a `get_toplevel` puts another in the place of may be of any id.
  have hbut : s'.RefsBut fun holder slot =>
      holder = m.sender ∧ slot = .toplevel ∧ s.getsToplevel m := by
    apply h.requested _ (requested_of_request hr)
    intro holder slot r hrecords hX hid
    exact hfree ⟨(holder, slot, r), records_iff.mpr hrecords, hid, hX⟩
  refine ⟨hbut.toIdsKept, ?_, hbut.given⟩
  intro holder slot r hrecords _
  by_cases hX : holder = m.sender ∧ slot = .toplevel ∧ s.getsToplevel m
  · obtain ⟨rfl, rfl, hgets⟩ := hX
    exact current_of_getsToplevel h hr hgets hrecords
  · exact hbut.current holder slot r hrecords hX

theorem event (h : s.RefsBut fun _ _ => False) (e : Event) :
    (s.event E e).RefsBut fun _ _ => False := by
  rcases s.event_cases (E := E) e with ⟨_, hs⟩ | ⟨bridge, o, desc, ht, ⟨_, hs⟩ | ⟨input, _, hs⟩⟩
  · rw [hs]
    exact h
  · rw [hs]
    exact h.receive desc o.version e.alive e.args
  · have hup := h.toIdsKept.receive_upstream (E := E) ht
    rw [hs]
    exact (h.receive desc o.version e.alive e.args).delivered hup
      (delivered_deliver (isSome_of_upstream hup) o.iface desc e input)

theorem step (h : s.RefsBut fun _ _ => False) {a : Action} (hfree : ¬Reuses s a)
    (ha : step E s a = some s') : s'.RefsBut fun _ _ => False := by
  cases a with
  | request m answer =>
      change (s.request E m answer).toOption = some s' at ha
      cases hr : s.request E m answer with
      | error fault =>
          rw [hr] at ha
          cases ha
      | ok t =>
          rw [hr] at ha
          cases ha
          exact h.request hfree hr
  | event e =>
      cases ha
      exact h.event e
  | setOutput global geometry =>
      cases ha
      exact h.of_quiet (s.still_setOutput global geometry).toQuiet
  | close toplevel =>
      cases ha
      exact h.of_quiet (s.still_close toplevel).toQuiet

end RefsBut

private theorem refsBut_initial (F : Type) (E : Setting F) :
    (State.initial F E).RefsBut fun _ _ => False := by
  have hnone : ∀ holder slot r, ¬(State.initial F E).Records holder slot r := by
    rintro holder slot r (⟨o, ho, hr⟩ | ⟨_, f, hf, _⟩)
    · rw [obj_initial] at ho
      split at ho
      · rw [← Option.some.inj ho] at hr
        rcases hr with hr | hr <;> cases hr
      · cases ho
    · cases hf
  exact ⟨idsKept_initial F E, fun _ _ _ hr => absurd hr (hnone _ _ _),
    fun _ _ _ hr => absurd hr (hnone _ _ _)⟩

end State

/-! ## Section 5: Runs -/

/-- In a run in which no request creates an object under an id that stays recorded, every
recorded id denotes the object it was recorded for, or none. -/
theorem references_current (E : Setting F) {s : State F} {as : List Action}
    (hfree : StepsMeet (step E) (fun s a => ¬Reuses s a) (State.initial F E) as)
    (hrun : run (step E) (State.initial F E) as = some s) {holder : Id} {slot : Slot} {r : Ref}
    (hr : s.Records holder slot r) : r.Current s := by
  have hrefs := run_invariant_of_meets (I := State.RefsBut fun _ _ => False)
    (fun _ _ _ h hfree ha => h.step hfree ha) (State.refsBut_initial F E) hfree hrun
  exact hrefs.current holder slot r hr id

/-- A compositor, surfaces and viewports. -/
def viewportTable (name : String) : Interface :=
  { name := name
    requests := match name with
      | "wl_display" => [{ name := "sync", signature := [.newId], childInterface := some "wl_callback" },
          { name := "get_registry", signature := [.newId], childInterface := some "wl_registry" }]
      | "wl_registry" => [{ name := "bind", signature := [.uint, .str false, .uint, .newId] }]
      | "wl_compositor" =>
          [{ name := "create_surface", signature := [.newId], childInterface := some "wl_surface" }]
      | "wl_surface" => [{ name := "destroy", isDestructor := true }]
      | "wp_viewporter" => [{ name := "destroy", isDestructor := true },
          { name := "get_viewport", signature := [.newId, .object false],
            childInterface := some "wp_viewport", argInterfaces := ["wl_surface"] }]
      | "wp_viewport" => [{ name := "destroy", isDestructor := true }]
      | _ => []
    events := match name with
      | "wl_registry" => [{ name := "global", signature := [.uint, .str false, .uint] }]
      | _ => [] }

/-- A surface gets a viewport. -/
def viewportComes : List Action :=
  [.request ⟨displayId, 1, [.newId 2]⟩ ⟨some 10, true⟩,
    .event { sender := 10, opcode := 0, args := [.uint 1, .str (some "wl_compositor"), .uint 6] },
    .event { sender := 10, opcode := 0, args := [.uint 2, .str (some "wp_viewporter"), .uint 1] },
    .request ⟨2, 0, [.uint 1, .str (some "wl_compositor"), .uint 1, .newId 3]⟩ ⟨some 11, true⟩,
    .request ⟨2, 0, [.uint 2, .str (some "wp_viewporter"), .uint 1, .newId 4]⟩ ⟨some 12, true⟩,
    .request ⟨3, 0, [.newId 5]⟩ ⟨some 13, true⟩,
    .request ⟨4, 1, [.newId 6, .object 5]⟩ ⟨some 14, true⟩]

/-- The surface is destroyed, and its id goes to another surface. -/
def viewportOutlives : List Action :=
  viewportComes ++ [.request ⟨5, 0, []⟩ ⟨some 0, true⟩, .request ⟨3, 0, [.newId 5]⟩ ⟨some 15, true⟩]

theorem references_current_example :
    ∃ s, run (step (Setting.bare viewportTable)) (State.initial Unit (Setting.bare viewportTable))
        viewportComes = some s ∧
      ∀ holder slot r, s.Records holder slot r → r.Current s := by
  have hsome : (run (step (Setting.bare viewportTable)) (State.initial Unit (Setting.bare viewportTable))
      viewportComes).isSome = true := by
    decide
  obtain ⟨s, hs⟩ := Option.isSome_iff_exists.mp hsome
  exact ⟨s, hs, fun _ _ _ hr => references_current _ (by decide) hs hr⟩

/-- The viewport records an id that another surface has now. -/
theorem viewport_outlives_surface :
    ∃ s, run (step (Setting.bare viewportTable)) (State.initial Unit (Setting.bare viewportTable))
        viewportOutlives = some s ∧
      ∃ r, s.Records 6 .object r ∧ ¬r.Current s := by
  have hsome : ((run (step (Setting.bare viewportTable))
      (State.initial Unit (Setting.bare viewportTable)) viewportOutlives).any fun s =>
        decide ((6, .object, ⟨5, some 4⟩) ∈ s.records ∧ (s.obj 5).map Obj.born = some 6)) = true := by
    decide
  obtain ⟨s, hs, hchecked⟩ := exists_of_any hsome
  obtain ⟨hrecords, hborn⟩ := of_decide_eq_true hchecked
  obtain ⟨o, ho, hserial⟩ := Option.map_eq_some_iff.mp hborn
  refine ⟨s, hs, _, State.records_iff.mp hrecords, ?_⟩
  intro hcurrent
  have hsame := hcurrent 4 rfl o ho
  rw [hserial] at hsame
  cases hsame

end Psbox.Decorations
