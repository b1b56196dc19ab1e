import Psbox.Decorations.Ids

/-!
# Objects the Bridge Does Not Know

An event of the compositor may name an object that the bridge does not have, such as the
surface of a title bar, or one that the bridge destroyed while the event was on its way.
Where the event is written all the same, it has no object in that one's place.

In a run of events as the protocols have them, that happens exactly when a pointer leaves
a surface that the bridge has destroyed since the pointer came to it: `Focus.pass` goes by
what it was told when the pointer came.
-/

namespace Psbox.Decorations

open Psbox.Foundations

variable {F : Type} {E : Setting F}

/-! ## Section 1: The Events of the Protocols -/

/-- Whether the protocol of an interface has objects among the arguments of an event, for
the interfaces whose events the proxy decides on by their names. -/
def namesObjects (iface event : String) : Bool :=
  match iface with
  | "wl_registry" => false
  | "wl_pointer" => event = "enter" ∨ event = "leave"
  | "wl_touch" => event = "down"
  | "wl_data_device" => event = "data_offer" ∨ event = "enter" ∨ event = "selection"
  | "zwp_tablet_tool_v2" => event = "proximity_in"
  | _ => true

/-- What a pointer's `leave` is sent with: a serial number and the surface. -/
def leftSurface : List UpstreamArg → Option ObjectId
  | [.uint _, .object (some surface)] => some surface
  | _ => none

def Arg.isObject {ρ : Type} : Arg ρ → Bool
  | .object _ => true
  | _ => false

/-- An event is as the protocol of its object's interface has it: it names no objects
where that has none, and a pointer leaves a surface. -/
def Conforms (s : State F) : Action → Prop
  | .event e => ∀ x ∈ s.receiver e,
      (namesObjects x.2.1.iface.name x.2.2.name = false → e.args.all fun a => !a.isObject) ∧
        (x.2.1.iface.name = "wl_pointer" → x.2.2.name = "leave" → (leftSurface e.args).isSome)
  | _ => True

def Role.shows : Role → Bool
  | .focus f => !f.hidden
  | _ => false

/-- A pointer leaves a surface that the bridge no longer has, and that it had when the
pointer came. -/
def StrayLeave (s : State F) : Action → Prop
  | .event e => ∃ x ∈ s.receiver e, ∃ surface ∈ leftSurface e.args,
      x.2.1.iface.name = "wl_pointer" ∧ x.2.2.name = "leave" ∧ x.2.1.role.shows ∧
        s.bridgeId e.alive surface = none
  | _ => False

private theorem leftSurface_eq_some {args : List UpstreamArg} {surface : ObjectId} :
    leftSurface args = some surface ↔ ∃ serial, args = [.uint serial, .object (some surface)] := by
  constructor
  · intro h
    unfold leftSurface at h
    split at h
    · cases h
      exact ⟨_, rfl⟩
    · cases h
  · rintro ⟨serial, rfl⟩
    rfl

private theorem Conforms.of_taken {s : State F} {e : Event} (h : Conforms s (.event e)) {bridge : Id} {o : Obj}
    {desc : MessageDesc} (ht : s.Taken e bridge o desc) :
    (namesObjects o.iface.name desc.name = false → ∀ up, .object up ∉ e.args) ∧
      (o.iface.name = "wl_pointer" → desc.name = "leave" →
        ∃ serial surface, e.args = [.uint serial, .object (some surface)]) := by
  obtain ⟨hnames, hleave⟩ := h _ (State.receiver_eq_some.mpr ht)
  constructor
  · intro hnone up hup
    have hall := List.all_eq_true.mp (hnames hnone) _ hup
    cases hall
  · intro hiface hevent
    obtain ⟨surface, hsurface⟩ := Option.isSome_iff_exists.mp (hleave hiface hevent)
    obtain ⟨serial, hargs⟩ := leftSurface_eq_some.mp hsurface
    exact ⟨serial, surface, hargs⟩

theorem Role.shows_iff {r : Role} : r.shows ↔ ∃ f, r = .focus f ∧ f.hidden = false := by
  cases r with
  | focus f => simp [shows]
  | _ => simp [shows]

private theorem strayLeave_iff {s : State F} {e : Event} {bridge : Id} {o : Obj} {desc : MessageDesc}
    (ht : s.Taken e bridge o desc) :
    StrayLeave s (.event e) ↔ o.iface.name = "wl_pointer" ∧ desc.name = "leave" ∧
      (∃ f, o.role = .focus f ∧ f.hidden = false) ∧
        ∃ serial surface, e.args = [.uint serial, .object (some surface)] ∧
          s.bridgeId e.alive surface = none := by
  constructor
  · rintro ⟨x, hx, surface, hsurface, hiface, hevent, hshows, hnone⟩
    cases hx.symm.trans (State.receiver_eq_some.mpr ht)
    obtain ⟨serial, hargs⟩ := leftSurface_eq_some.mp hsurface
    exact ⟨hiface, hevent, Role.shows_iff.mp hshows, serial, surface, hargs, hnone⟩
  · rintro ⟨hiface, hevent, hshows, serial, surface, hargs, hnone⟩
    exact ⟨_, State.receiver_eq_some.mpr ht, surface, leftSurface_eq_some.mpr ⟨serial, hargs⟩, hiface,
      hevent, Role.shows_iff.mpr hshows, hnone⟩

instance (s : State F) : DecidablePred (Conforms s)
  | .event e => inferInstanceAs (Decidable (∀ x ∈ s.receiver e,
      (namesObjects x.2.1.iface.name x.2.2.name = false → e.args.all fun a => !a.isObject) ∧
        (x.2.1.iface.name = "wl_pointer" → x.2.2.name = "leave" → (leftSurface e.args).isSome)))
  | .request _ _ | .setOutput _ _ | .close _ => inferInstanceAs (Decidable True)

instance (s : State F) : DecidablePred (StrayLeave s)
  | .event e => inferInstanceAs (Decidable (∃ x ∈ s.receiver e, ∃ surface ∈ leftSurface e.args,
      x.2.1.iface.name = "wl_pointer" ∧ x.2.2.name = "leave" ∧ x.2.1.role.shows ∧
        s.bridgeId e.alive surface = none))
  | .request _ _ | .setOutput _ _ | .close _ => inferInstanceAs (Decidable False)

/-! ## Section 2: The Log -/

/-- An event is written with no object only where it was sent with none, and the objects
it was sent with are the bridge's. -/
def Entry.Faithful (before : List Entry) : Entry → Prop
  | .event _ _ _ sent written =>
      (∀ i : Nat, written[i]? = some (.object 0) → sent[i]? = some (.object none)) ∧
        ∀ up, .object (some up) ∈ sent →
          ∃ id, run (Phase.next id) .free before = some (.live (.upstream (some up)))
  | _ => True

/-- All the entries that follow others are. -/
def Faithful : List Entry → List Entry → Prop
  | _, [] => True
  | before, e :: log => e.Faithful before ∧ Faithful (before ++ [e]) log

def Entry.isEvent : Entry → Bool
  | .event _ _ _ _ _ => true
  | _ => false

private theorem faithful_append (before xs ys : List Entry) :
    Faithful before (xs ++ ys) ↔ Faithful before xs ∧ Faithful (before ++ xs) ys := by
  induction xs generalizing before with
  | nil => simp [Faithful]
  | cons e xs ih =>
      show e.Faithful before ∧ Faithful (before ++ [e]) (xs ++ ys) ↔
        (e.Faithful before ∧ Faithful (before ++ [e]) xs) ∧ _
      rw [ih, and_assoc, List.append_assoc]
      rfl

private theorem faithful_of_no_event {before log : List Entry} (h : ∀ e ∈ log, e.isEvent = false) :
    Faithful before log := by
  induction log generalizing before with
  | nil => trivial
  | cons e log ih =>
      refine ⟨?_, ih fun e' he' => h e' (List.mem_cons_of_mem _ he')⟩
      have he := h e List.mem_cons_self
      cases e with
      | event _ _ _ _ _ => cases he
      | _ => trivial

/-- The log goes on, and no event is passed on. -/
def State.Silent (s s' : State F) : Prop :=
  ∃ new, s'.log = s.log ++ new ∧ ∀ e ∈ new, e.isEvent = false

namespace State

theorem Silent.refl (s : State F) : s.Silent s :=
  ⟨[], (List.append_nil _).symm, by simp⟩

theorem Silent.trans {s t u : State F} (h : s.Silent t) (h' : t.Silent u) : s.Silent u := by
  obtain ⟨new, hlog, hnew⟩ := h
  obtain ⟨new', hlog', hnew'⟩ := h'
  refine ⟨new ++ new', ?_, ?_⟩
  · rw [hlog', hlog, List.append_assoc]
  · intro e he
    rcases List.mem_append.mp he with he | he
    · exact hnew e he
    · exact hnew' e he

theorem Silent.one {s s' : State F} {e : Entry} (hlog : s'.log = s.log ++ [e])
    (he : e.isEvent = false) : s.Silent s' :=
  ⟨[e], hlog, by simpa using he⟩

private theorem Silent.faithful {s s' : State F} (h : s.Silent s') :
    Faithful [] s'.log ↔ Faithful [] s.log := by
  obtain ⟨new, hlog, hnew⟩ := h
  rw [hlog, faithful_append]
  exact ⟨And.left, fun hs => ⟨hs, faithful_of_no_event hnew⟩⟩

private theorem silent_of_quiet {s s' : State F} (h : Quiet s s') : s.Silent s' := by
  obtain ⟨asides, hlog, hasides⟩ := h.log
  refine ⟨asides, hlog, ?_⟩
  intro e he
  have haside := hasides e he
  cases e with
  | event _ _ _ _ _ => cases haside
  | _ => rfl

private theorem silent_creates {s s' : State F} {args : List BridgeArg} (h : Creates args s s') :
    s.Silent s' := by
  cases h with
  | nothing h =>
      rw [h]
      exact Silent.refl s
  | new id iface version kind role data _ _ _ _ _ h =>
      rw [h]
      exact Silent.one rfl rfl

private theorem silent_ends {s s' : State F} {id : Id} (h : Ends id s s') : s.Silent s' := by
  cases h with
  | nothing h =>
      rw [h]
      exact Silent.refl s
  | gone _ h =>
      rw [h]
      apply (Silent.one rfl rfl : s.Silent (s.destroy id)).trans
      unfold deleteId
      split
      · exact Silent.one rfl rfl
      · exact Silent.refl _

private theorem silent_requested {s s' : State F} {m : Request} (h : Requested m s s') : s.Silent s' := by
  obtain ⟨t, u, v, hbefore, hcreates, hafter, hends⟩ := h.parts
  exact (((silent_of_quiet hbefore).trans (silent_creates hcreates)).trans
    (silent_of_quiet hafter)).trans (silent_ends hends)

private theorem silent_receive (s : State F) (desc : MessageDesc) (version : Nat) (alive : ObjectId → Bool)
    (args : List UpstreamArg) : s.Silent (s.receive E desc version alive args).1 := by
  apply receive_induction (P := s.Silent)
  · intro t iface up ht
    exact ht.trans (Silent.one rfl rfl)
  · intro t ht
    exact ht
  · exact Silent.refl s

/-! ## Section 3: The Invariant -/

/-- 0 is no object, and only what input goes to has a focus. -/
structure Grounded (s : State F) : Prop extends s.IdsKept where
  zero : s.obj 0 = none
  fits : ∀ id o, s.obj id = some o → o.role.Fits o.iface.name

namespace Grounded

variable {s s' : State F}

theorem of_quiet (h : s.Grounded) (hq : Quiet s s') : s'.Grounded := by
  refine ⟨h.toIdsKept.of_quiet hq, ?_, ?_⟩
  · have hzero := hq.obj_isSome 0
    rw [h.zero] at hzero
    simpa using hzero
  · intro id o' ho' hfocus
    have hcore := hq.core id
    rw [ho'] at hcore
    obtain ⟨o, ho, hsame⟩ := Option.map_eq_some_iff.mp hcore.symm
    have hbefore : s.focused id := by
      apply hq.focused
      rw [focused, role, ho']
      exact hfocus
    rw [focused, role, ho] at hbefore
    have hiface : o.iface = o'.iface := congrArg Prod.fst hsame
    rw [← hiface]
    exact h.fits id o ho hbefore

/-- An object with a role of its interface, under an id other than 0. -/
theorem create (hzero : s.obj 0 = none) (hall : ∀ id o, s.obj id = some o → o.role.Fits o.iface.name)
    {origin : Origin} {id : Id} {iface : Interface} {version : Nat} {kind : Kind} {role : Role}
    (hid : id ≠ 0) (hfits : role.Fits iface.name)
    (hkept : (s.create origin id iface version kind role).IdsKept) :
    (s.create origin id iface version kind role).Grounded := by
  refine ⟨hkept, ?_, ?_⟩
  · rw [obj_create, if_neg hid.symm]
    exact hzero
  · intro j o ho
    rw [obj_create] at ho
    split at ho
    · rw [← Option.some.inj ho]
      exact hfits
    · exact hall j o ho

theorem with_data (h : s.Grounded) (data : Table Id) : { s with data := data }.Grounded :=
  ⟨h.toIdsKept.with_data data, h.zero, h.fits⟩

theorem creates (h : s.Grounded) {args : List BridgeArg} (hc : Creates args s s') : s'.Grounded := by
  cases hc with
  | nothing hs =>
      rw [hs]
      exact h
  | new id iface version kind role data _ hnew hfits _ _ hs =>
      rw [hs]
      apply with_data
      exact create h.zero h.fits (checkNewId_eq_ok.mp hnew).1 hfits
        (h.toIdsKept.create_bridge hnew _ _ _ _)

theorem ends (h : s.Grounded) {id : Id} (he : Ends id s s') : s'.Grounded := by
  refine ⟨h.toIdsKept.ends he, ?_, ?_⟩
  · cases he with
    | nothing hs =>
        rw [hs]
        exact h.zero
    | gone _ hs =>
        rw [hs, obj_deleteId, obj_destroy]
        split
        · rfl
        · exact h.zero
  · intro j o ho
    cases he with
    | nothing hs =>
        rw [hs] at ho
        exact h.fits j o ho
    | gone _ hs =>
        rw [hs, obj_deleteId, obj_destroy] at ho
        split at ho
        · cases ho
        · exact h.fits j o ho

theorem requested (h : s.Grounded) {m : Request} (hr : Requested m s s') : s'.Grounded := by
  obtain ⟨t, u, v, hbefore, hcreates, hafter, hends⟩ := hr.parts
  exact (((h.of_quiet hbefore).creates hcreates).of_quiet hafter).ends hends

theorem serve (h : s.Grounded) {iface : Interface} (version : Nat) (up : Option ObjectId) {role : Role}
    (hfits : role.Fits iface.name) :
    ({ s with nextServerId := s.nextServerId + 1 }.create .compositor s.nextServerId iface version
      (.upstream up) role).Grounded := by
  have hpos : 0 < serverIdStart := by simp [serverIdStart]
  have hnext : s.nextServerId ≠ 0 := ne_of_gt (lt_of_lt_of_le hpos h.start)
  have hkept := h.toIdsKept.create_compositor iface version (.upstream up) role
  exact create (s := { s with nextServerId := s.nextServerId + 1 }) h.zero h.fits hnext hfits hkept

theorem receive (h : s.Grounded) (desc : MessageDesc) (version : Nat) (alive : ObjectId → Bool)
    (args : List UpstreamArg) : (s.receive E desc version alive args).1.Grounded := by
  apply receive_induction (P := Grounded)
  · intro t iface up ht
    exact ht.serve version up (Role.fits_forInterface _)
  · intro t ht
    exact ⟨ht.toIdsKept.failed, ht.zero, ht.fits⟩
  · exact h

/-- An event whose sender's object is there is delivered. -/
theorem delivered (h : s.Grounded) {bridge : Id} {iface : Interface} {desc : MessageDesc} {e : Event}
    {input : Incoming} {out : State F × List BridgeArg × Bool}
    (hup : s.upstream bridge = some (some e.sender))
    (hd : Delivered s s' bridge iface desc e input out) : s'.Grounded := by
  obtain ⟨data, t, hends, hs⟩ := hd.parts
  have hquiet := h.of_quiet hd.quiet
  rw [hs]
  apply with_data
  apply ends _ hends
  split
  · exact ⟨hquiet.toIdsKept.event ((hd.quiet.upstream bridge).trans hup) _ _ _, hquiet.zero, hquiet.fits⟩
  · exact hquiet

theorem step (h : s.Grounded) {a : Action} (ha : step E s a = some s') : s'.Grounded := by
  cases a with
  | request m answer => exact h.requested (requested_of_step ha)
  | event e =>
      cases ha
      rcases s.event_cases (E := E) e with ⟨_, hs⟩ | ⟨bridge, obj, desc, ht, ⟨_, hs⟩ | ⟨input, _, hs⟩⟩
      · rw [hs]
        exact h
      · rw [hs]
        exact h.receive desc obj.version e.alive e.args
      · have hup := h.toIdsKept.receive_upstream (E := E) ht
        rw [hs]
        exact (h.receive desc obj.version e.alive e.args).delivered hup
          (delivered_deliver (isSome_of_upstream hup) obj.iface desc e input)
  | setOutput global geometry =>
      cases ha
      exact h.of_quiet (s.still_setOutput global geometry).toQuiet
  | close toplevel =>
      cases ha
      exact h.of_quiet (s.still_close toplevel).toQuiet

end Grounded

private theorem grounded_initial (F : Type) (E : Setting F) : (State.initial F E).Grounded := by
  refine ⟨idsKept_initial F E, ?_, ?_⟩
  · rw [obj_initial]
    rfl
  · intro id o ho
    rw [obj_initial] at ho
    split at ho
    · rw [← Option.some.inj ho]
      exact fun hfocus => (nomatch hfocus)
    · cases ho

/-! ## Section 4: Arguments -/

/-- The objects among changed arguments are the ones there were. -/
def Keeps (args args' : List BridgeArg) : Prop :=
  ∀ (i : Nat) id, args'[i]? = some (.object id) → args[i]? = some (.object id)

theorem Keeps.set {args args' : List BridgeArg} (h : Keeps args args') (i : Nat) {a : BridgeArg}
    (ha : ∀ id, a ≠ .object id) : Keeps args (args'.set i a) := by
  intro j id hj
  rw [List.getElem?_set] at hj
  split at hj
  · split at hj
    · exact absurd (Option.some.inj hj) (ha id)
    · cases hj
  · exact h j id hj

theorem Keeps.refl (args : List BridgeArg) : Keeps args args :=
  fun _ _ h => h

private theorem Keeps.set_int (args : List BridgeArg) (i : Nat) (v : Int) : Keeps args (args.set i (.int v)) :=
  (Keeps.refl args).set i fun _ h => (nomatch h)

private theorem Keeps.set_uint (args : List BridgeArg) (i v : Nat) : Keeps args (args.set i (.uint v)) :=
  (Keeps.refl args).set i fun _ h => (nomatch h)

private theorem keeps_adjustEvent (s : State F) (bridge : Id) (iface event : String) (args : List BridgeArg) :
    Keeps args (s.adjustEvent E bridge iface event args).2 := by
  unfold adjustEvent
  split
  -- `xdg_toplevel.configure`
  case h_1 =>
    split
    · exact (Keeps.set_int args 0 _).set 1 fun _ h => (nomatch h)
    · exact Keeps.refl args
  -- `xdg_toplevel.configure_bounds`
  case h_2 =>
    dsimp only
    split
    · exact Keeps.set_int args 1 _
    · exact Keeps.refl args
  -- `xdg_popup.configure`
  case h_4 => exact Keeps.set_int args 1 _
  -- `wl_surface.preferred_buffer_scale` and `wl_output.scale`
  case h_7 | h_13 => exact Keeps.set_int args 0 _
  -- `wp_fractional_scale_v1.preferred_scale`
  case h_8 => exact Keeps.set_uint args 0 _
  -- `xdg_toplevel.wm_capabilities`, `zxdg_output_v1.done` and `zxdg_output_v1.logical_size`
  case h_3 | h_11 | h_12 => split <;> exact Keeps.refl args
  all_goals exact Keeps.refl args

private theorem keeps_beforeEvent (s : State F) (bridge : Id) (iface event : String) (hidden : Bool)
    (args : List BridgeArg) : Keeps args (s.beforeEvent E bridge iface event hidden args).2.1 := by
  unfold beforeEvent
  split
  · unfold advertise
    dsimp only
    split
    · exact Keeps.refl args
    · exact Keeps.set_uint args 2 _
  split
  · exact Keeps.refl args
  split
  · dsimp only
    split
    · exact Keeps.refl args
    · exact (Keeps.set_int args 1 _).set 2 fun _ h => (nomatch h)
  split
  · split <;> exact Keeps.refl args
  · exact keeps_adjustEvent _ _ _ _ _

/-- Arguments have no object only where they were sent with none, and the bridge has each
object they were sent with. -/
structure Known (s : State F) (sent : List UpstreamArg) (written : List BridgeArg) : Prop where
  null : ∀ i : Nat, written[i]? = some (.object 0) → sent[i]? = some (.object none)
  owned : ∀ up, .object (some up) ∈ sent → ∃ id, s.upstream id = some (some up)

private theorem phase_of_upstream {s : State F} {id : Id} {up : Option ObjectId}
    (h : s.upstream id = some up) : s.phase id = .live (.upstream up) := by
  unfold upstream at h
  unfold phase
  split at h
  · rename_i hkind
    rw [hkind, Option.some.inj h]
  · cases h

theorem Known.cons {s : State F} {sent : List UpstreamArg} {written : List BridgeArg}
    (h : s.Known sent written) {a : UpstreamArg} {b : BridgeArg} (hnull : b = .object 0 → a = .object none)
    (howned : ∀ up, a = .object (some up) → ∃ id, s.upstream id = some (some up)) :
    s.Known (a :: sent) (b :: written) := by
  constructor
  · intro i hi
    cases i with
    | zero => exact congrArg some (hnull (Option.some.inj hi))
    | succ i => exact h.null i hi
  · intro up hup
    rcases List.mem_cons.mp hup with hup | hup
    · exact howned up hup.symm
    · exact h.owned up hup

/-- An event that names no object unknown to the bridge. -/
theorem receive_known {s : State F} (h : s.Grounded) {desc : MessageDesc} {version : Nat}
    {alive : ObjectId → Bool} {args : List UpstreamArg} {input : Incoming}
    (hr : (s.receive E desc version alive args).2 = some input) (hhidden : input.hidden = false) :
    (s.receive E desc version alive args).1.Known args input.args := by
  induction args generalizing s input with
  | nil =>
      cases hr
      exact ⟨fun i hi => by simp at hi, fun up hup => (nomatch hup)⟩
  | cons a args ih =>
      cases a with
      | object up =>
          cases up with
          | none =>
              obtain ⟨out, hout, hinput⟩ := Option.map_eq_some_iff.mp hr
              rw [← hinput] at hhidden ⊢
              exact (ih h hout hhidden).cons (fun _ => rfl) fun up hup => (nomatch hup)
          | some up =>
              unfold receive at hr ⊢
              split at hr
              · rename_i id hid
                obtain ⟨out, hout, hinput⟩ := Option.map_eq_some_iff.mp hr
                rw [← hinput] at hhidden ⊢
                have hup : s.upstream id = some (some up) := by
                  unfold bridgeId at hid
                  split at hid
                  · simpa using (Option.filter_eq_some_iff.mp hid).2
                  · cases hid
                apply (ih h hout hhidden).cons
                · -- The bridge's object is not the null object.
                  intro hzero
                  cases hzero
                  have hsome := isSome_of_upstream hup
                  rw [h.zero] at hsome
                  cases hsome
                · intro up' hup'
                  cases hup'
                  refine ⟨id, ?_⟩
                  obtain ⟨o, ho⟩ := Option.isSome_iff_exists.mp (isSome_of_upstream hup)
                  have hkept := (h.toIdsKept.receive (E := E) desc version alive args).2 id o ho
                  rw [upstream, ho] at hup
                  show State.upstream _ id = _
                  rw [upstream, hkept]
                  exact hup
              · obtain ⟨out, _, hinput⟩ := Option.map_eq_some_iff.mp hr
                rw [← hinput] at hhidden
                cases hhidden
      | newId up =>
          unfold receive at hr ⊢
          split at hr
          · cases hr
          · rename_i name hname
            dsimp only at hr ⊢
            split at hr
            · rename_i hroom
              rw [if_pos hroom]
              obtain ⟨out', hout', hinput⟩ := Option.map_eq_some_iff.mp hr
              obtain ⟨out, hout, hout'eq⟩ := Option.map_eq_some_iff.mp hout'
              rw [← hinput, ← hout'eq] at hhidden ⊢
              have hserved := h.serve version up (Role.fits_forInterface (E.table name).name)
              exact (ih hserved hout hhidden).cons (fun h => (nomatch h)) fun up' hup' => (nomatch hup')
            · cases hr
      | int _ | uint _ | fixed _ | str _ | array _ | fd _ =>
          obtain ⟨out, hout, hinput⟩ := Option.map_eq_some_iff.mp hr
          rw [← hinput] at hhidden ⊢
          exact (ih h hout hhidden).cons (fun h => (nomatch h)) fun up hup => (nomatch hup)

/-- An event that names no object. -/
theorem receive_plain {s : State F} {desc : MessageDesc} {version : Nat} {alive : ObjectId → Bool}
    {args : List UpstreamArg} (hplain : ∀ up, .object up ∉ args) {input : Incoming}
    (hr : (s.receive E desc version alive args).2 = some input) : input.hidden = false := by
  induction args generalizing s input with
  | nil =>
      cases hr
      rfl
  | cons a args ih =>
      have hrest : ∀ up, .object up ∉ args := fun up hup => hplain up (List.mem_cons_of_mem _ hup)
      cases a with
      | object up => exact absurd List.mem_cons_self (hplain up)
      | newId up =>
          unfold receive at hr
          split at hr
          · cases hr
          · dsimp only at hr
            split at hr
            · obtain ⟨out', hout', hinput⟩ := Option.map_eq_some_iff.mp hr
              obtain ⟨out, hout, hout'eq⟩ := Option.map_eq_some_iff.mp hout'
              rw [← hinput, ← hout'eq]
              show out.hidden = false
              exact ih hrest hout
            · cases hr
      | int _ | uint _ | fixed _ | str _ | array _ | fd _ =>
          obtain ⟨out, hout, hinput⟩ := Option.map_eq_some_iff.mp hr
          rw [← hinput]
          show out.hidden = false
          exact ih hrest hout

/-! ## Section 5: The Decision -/

/-- What names an unknown object is kept from a focus, but for a pointer that leaves. -/
theorem pass_hidden (f : Focus) {iface event : String} (args : List BridgeArg)
    (hiface : iface ∈ focusInterfaces) (hnames : namesObjects iface event = true)
    (hleave : ¬(iface = "wl_pointer" ∧ event = "leave")) :
    (f.pass iface event true args).2 = false := by
  simp only [focusInterfaces, List.mem_cons, List.not_mem_nil, or_false] at hiface
  rcases hiface with rfl | rfl | rfl | rfl
  · have hevent : event = "enter" ∨ event = "leave" := by simpa [namesObjects] using hnames
    rcases hevent with rfl | rfl
    · rfl
    · exact absurd ⟨rfl, rfl⟩ hleave
  · have hevent : event = "down" := by simpa [namesObjects] using hnames
    rw [hevent]
    rfl
  · have hevent : event = "data_offer" ∨ event = "enter" ∨ event = "selection" := by
      simpa [namesObjects] using hnames
    rcases hevent with rfl | rfl | rfl <;> rfl
  · have hevent : event = "proximity_in" := by simpa [namesObjects] using hnames
    rw [hevent]
    rfl

private theorem focus_hidden {s t : State F} (h : s.Grounded) (hq : Quiet s t) {bridge : Id} {o : Obj}
    (ho : s.obj bridge = some o) {event : String} (args : List BridgeArg)
    (hnames : namesObjects o.iface.name event = true)
    (hleave : ¬(o.iface.name = "wl_pointer" ∧ event = "leave")) :
    (t.focus bridge o.iface.name event true args).2 = false := by
  unfold focus
  split
  · rename_i f hrole
    have hfocused : s.focused bridge := by
      apply hq.focused
      rw [focused, hrole]
      rfl
    rw [focused, role, ho] at hfocused
    exact pass_hidden f args (h.fits bridge o ho hfocused) hnames hleave
  · rfl

private theorem beforeEvent_hidden {s : State F} (h : s.Grounded) {bridge : Id} {o : Obj}
    (ho : s.obj bridge = some o) {event : String} (args : List BridgeArg)
    (hnames : namesObjects o.iface.name event = true)
    (hleave : ¬(o.iface.name = "wl_pointer" ∧ event = "leave")) :
    (s.beforeEvent E bridge o.iface.name event true args).2.2 = false := by
  have hregistry : o.iface.name ≠ "wl_registry" := by
    intro hregistry
    rw [hregistry] at hnames
    cases hnames
  unfold beforeEvent
  rw [if_neg fun hglobal => hregistry hglobal.1, if_neg fun hglobal => hregistry hglobal.1]
  split
  · dsimp only
    split
    · rfl
    · exact focus_hidden h (s.still_adjustOutput bridge _).toQuiet ho _ hnames hleave
  split
  · split
    · apply focus_hidden h _ ho _ hnames hleave
      apply quiet_adjustRole_const _ _ rfl
      intro x hx
      cases hx
    · rfl
  · exact focus_hidden h (still_adjustEvent _ _ _ _ _).toQuiet ho _ hnames hleave

private theorem beforeEvent_leave (s : State F) (bridge : Id) (hidden : Bool) (args : List BridgeArg) :
    s.beforeEvent E bridge "wl_pointer" "leave" hidden args =
      ((s.focus bridge "wl_pointer" "leave" hidden args).1, args,
        (s.focus bridge "wl_pointer" "leave" hidden args).2) := by
  rfl

/-! ## Section 6: One Event -/

/-- What is written of an event that names no unknown object. -/
theorem faithful_written {s t : State F} (h : s.Grounded) (hq : Quiet s t)
    {sent : List UpstreamArg} {args written : List BridgeArg} (hknown : s.Known sent args)
    (hkeeps : Keeps args written) (bridge : Id) (up : ObjectId) (name : String) :
    (Entry.event bridge up name sent written).Faithful t.log := by
  refine ⟨fun i hi => hknown.null i (hkeeps i 0 hi), ?_⟩
  intro named hnamed
  obtain ⟨id, hid⟩ := hknown.owned named hnamed
  refine ⟨id, ?_⟩
  rw [(h.toIdsKept.of_quiet hq).lives, phase_of_upstream ((hq.upstream id).trans hid)]

/-- The log of a delivered event is faithful when it was, and the event is, if it is
written. -/
theorem faithful_delivered {s s' : State F} {bridge : Id} {iface : Interface} {desc : MessageDesc}
    {e : Event} {input : Incoming} {out : State F × List BridgeArg × Bool}
    (hd : Delivered s s' bridge iface desc e input out) :
    Faithful [] s'.log ↔ Faithful [] s.log ∧
      (out.2.2 = true → (Entry.event bridge e.sender desc.name e.args out.2.1).Faithful out.1.log) := by
  obtain ⟨data, t, hends, hs⟩ := hd.parts
  have hquiet := (silent_of_quiet hd.quiet).faithful
  have hlog : Faithful [] s'.log ↔ Faithful [] t.log := by rw [hs]
  rw [hlog, (silent_ends hends).faithful]
  split
  · rename_i hpasses
    show Faithful [] (out.1.log ++ [_]) ↔ _
    rw [faithful_append, hquiet]
    exact and_congr_right fun _ => ⟨fun h _ => h.1, fun h => ⟨h hpasses, trivial⟩⟩
  · rename_i hpasses
    rw [hquiet]
    exact ⟨fun h => ⟨h, fun hp => absurd hp hpasses⟩, And.left⟩

/-- What an event is written as is right, if it is written. -/
def WrittenRight (E : Setting F) (s : State F) (e : Event) (bridge : Id) (o : Obj) (desc : MessageDesc)
    (input : Incoming) : Prop :=
  (s.beforeEvent E bridge o.iface.name desc.name input.hidden input.args).2.2 = true →
    (Entry.event bridge e.sender desc.name e.args
      (s.beforeEvent E bridge o.iface.name desc.name input.hidden input.args).2.1).Faithful
      (s.beforeEvent E bridge o.iface.name desc.name input.hidden input.args).1.log

private theorem writtenRight_of_known {s : State F} (h : s.Grounded) {e : Event} {bridge : Id} {o : Obj}
    {desc : MessageDesc} {input : Incoming} (hknown : s.Known e.args input.args) :
    WrittenRight E s e bridge o desc input :=
  fun _ => faithful_written h (quiet_beforeEvent _ _ _ _ _ _) hknown (keeps_beforeEvent _ _ _ _ _ _) _ _ _

private theorem receive_leave {s : State F} {desc : MessageDesc} {version serial : Nat}
    {alive : ObjectId → Bool} {surface : ObjectId} (hnone : s.bridgeId alive surface = none) :
    s.receive E desc version alive [.uint serial, .object (some surface)] =
      (s, some { args := [.uint serial, .object 0], hidden := true }) := by
  unfold receive receive
  rw [hnone]
  rfl

/-- The pointer leaves a surface the bridge does not have: the event is written, and wrong,
unless it is hidden. -/
theorem writtenRight_leave {s : State F} {e : Event} {bridge : Id} {o : Obj} {desc : MessageDesc}
    (ht : s.Taken e bridge o desc) (hiface : o.iface.name = "wl_pointer") (hevent : desc.name = "leave")
    {serial : Nat} {surface : ObjectId} (hargs : e.args = [.uint serial, .object (some surface)])
    (hnone : s.bridgeId e.alive surface = none) :
    WrittenRight E s e bridge o desc { args := [.uint serial, .object 0], hidden := true } ↔
      ¬StrayLeave s (.event e) := by
  unfold WrittenRight
  rw [hiface, hevent, beforeEvent_leave]
  dsimp only
  constructor
  · intro hright hstray
    obtain ⟨_, _, ⟨f, hrole, hhidden⟩, _⟩ := (strayLeave_iff ht).mp hstray
    have hpasses : (s.focus bridge "wl_pointer" "leave" true [.uint serial, .object 0]).2 = true := by
      have hfocus : s.role bridge = some (.focus f) := by
        rw [role, ht.found, ← hrole]
        rfl
      unfold focus
      rw [hfocus]
      show (!f.hidden) = true
      rw [hhidden]
      rfl
    -- The surface's place is empty, and it was sent with one.
    have hnull := (hright hpasses).1 1 rfl
    rw [hargs] at hnull
    cases hnull
  · intro hstray hpasses
    unfold focus at hpasses
    split at hpasses
    · rename_i f hfocus
      have hrole : o.role = .focus f := by
        rw [role, ht.found] at hfocus
        exact Option.some.inj hfocus
      have hhidden : f.hidden = false := by
        change (!f.hidden) = true at hpasses
        simpa using hpasses
      apply absurd ((strayLeave_iff ht).mpr _) hstray
      exact ⟨hiface, hevent, ⟨f, hrole, hhidden⟩, serial, surface, hargs, hnone⟩
    · cases hpasses

/-- An event that conforms is written right unless it is a stray leave. -/
theorem writtenRight_iff {s : State F} (h : s.Grounded) {e : Event} (hconforms : Conforms s (.event e))
    {bridge : Id} {o : Obj} {desc : MessageDesc} (ht : s.Taken e bridge o desc) {input : Incoming}
    (hinput : (s.receive E desc o.version e.alive e.args).2 = some input) :
    WrittenRight E (s.receive E desc o.version e.alive e.args).1 e bridge o desc input ↔
      ¬StrayLeave s (.event e) := by
  have hreceived := h.receive (E := E) desc o.version e.alive e.args
  have hfound := (h.toIdsKept.receive (E := E) desc o.version e.alive e.args).2 bridge o ht.found
  obtain ⟨hnames, hleave⟩ := hconforms.of_taken ht
  cases hhidden : input.hidden with
  | false =>
      refine ⟨fun _ hstray => ?_, fun _ => writtenRight_of_known hreceived (receive_known h hinput hhidden)⟩
      obtain ⟨_, _, _, serial, surface, hargs, hnone⟩ := (strayLeave_iff ht).mp hstray
      rw [hargs, receive_leave hnone] at hinput
      rw [← Option.some.inj hinput] at hhidden
      cases hhidden
  | true =>
      by_cases hpointer : o.iface.name = "wl_pointer" ∧ desc.name = "leave"
      · obtain ⟨serial, surface, hargs⟩ := hleave hpointer.1 hpointer.2
        cases hnone : s.bridgeId e.alive surface with
        | none =>
            rw [hargs, receive_leave hnone] at hinput ⊢
            rw [← Option.some.inj hinput]
            exact writtenRight_leave ht hpointer.1 hpointer.2 hargs hnone
        | some id =>
            -- The surface is known, and there is no other object.
            rw [hargs] at hinput
            unfold receive receive at hinput
            rw [hnone] at hinput
            rw [← Option.some.inj hinput] at hhidden
            cases hhidden
      · have hobjects : namesObjects o.iface.name desc.name = true := by
          by_contra hnone
          have hshown := receive_plain (hnames (by simpa using hnone)) hinput
          rw [hhidden] at hshown
          cases hshown
        refine ⟨fun _ hstray => ?_, fun _ hpasses => ?_⟩
        · obtain ⟨hiface, hevent, _⟩ := (strayLeave_iff ht).mp hstray
          exact hpointer ⟨hiface, hevent⟩
        · rw [hhidden, beforeEvent_hidden hreceived hfound _ hobjects hpointer] at hpasses
          cases hpasses

private theorem faithful_step {s s' : State F} (h : s.Grounded) {a : Action} (hconforms : Conforms s a)
    (ha : step E s a = some s') : Faithful [] s'.log ↔ Faithful [] s.log ∧ ¬StrayLeave s a := by
  cases a with
  | request m answer =>
      rw [(silent_requested (requested_of_step ha)).faithful]
      exact (and_iff_left fun hstray => hstray).symm
  | setOutput global geometry =>
      cases ha
      rw [(silent_of_quiet (s.still_setOutput global geometry).toQuiet).faithful]
      exact (and_iff_left fun hstray => hstray).symm
  | close toplevel =>
      cases ha
      rw [(silent_of_quiet (s.still_close toplevel).toQuiet).faithful]
      exact (and_iff_left fun hstray => hstray).symm
  | event e =>
      cases ha
      rcases s.event_cases (E := E) e with ⟨hnot, hs⟩ | ⟨bridge, o, desc, ht, hcases⟩
      · rw [hs]
        refine (and_iff_left ?_).symm
        rintro ⟨x, hx, _⟩
        exact hnot _ _ _ (State.receiver_eq_some.mp hx)
      · have hsilent := (s.silent_receive (E := E) desc o.version e.alive e.args).faithful
        rcases hcases with ⟨hnone, hs⟩ | ⟨input, hinput, hs⟩
        · rw [hs, hsilent]
          refine (and_iff_left ?_).symm
          -- A stray leave is taken in.
          intro hstray
          obtain ⟨_, _, _, serial, surface, hargs, hunknown⟩ := (strayLeave_iff ht).mp hstray
          rw [hargs, receive_leave hunknown] at hnone
          cases hnone
        · have hup := h.toIdsKept.receive_upstream (E := E) ht
          rw [hs, faithful_delivered (delivered_deliver (isSome_of_upstream hup) o.iface desc e input),
            hsilent]
          exact and_congr_right fun _ => writtenRight_iff h hconforms ht hinput

end State

/-! ## Section 7: Runs -/

/-- In a run of events as the protocols have them, every event is written with no object
only where it was sent with none, and with no object the bridge does not know, exactly
when no pointer leaves a surface that the bridge destroyed since the pointer came. -/
theorem events_faithful_iff (E : Setting F) {s : State F} {as : List Action}
    (hconforms : StepsMeet (step E) Conforms (State.initial F E) as)
    (hrun : run (step E) (State.initial F E) as = some s) :
    Faithful [] s.log ↔ StepsMeet (step E) (fun s a => ¬StrayLeave s a) (State.initial F E) as := by
  have hinitial : Faithful [] (State.initial F E).log := ⟨trivial, trivial⟩
  have hruns := run_iff_of_step_of_inv (P := fun s => Faithful [] s.log)
    (fun _ _ _ h ha => State.Grounded.step h ha)
    (fun _ _ _ h hc ha => State.faithful_step h hc ha) (State.grounded_initial F E) hconforms hrun
  rw [hruns]
  exact and_iff_right hinitial

/-- A compositor, a surface and a pointer. -/
def pointerTable (name : String) : Interface :=
  { name := name
    requests := match name with
      | "wl_display" => [{ name := "sync", signature := [.newId], childInterface := some "wl_callback" },
          { name := "get_registry", signature := [.newId], childInterface := some "wl_registry" }]
      | "wl_registry" => [{ name := "bind", signature := [.uint, .str false, .uint, .newId] }]
      | "wl_compositor" =>
          [{ name := "create_surface", signature := [.newId], childInterface := some "wl_surface" }]
      | "wl_surface" => [{ name := "destroy", isDestructor := true }]
      | "wl_seat" => [{ name := "get_pointer", signature := [.newId], childInterface := some "wl_pointer" }]
      | _ => []
    events := match name with
      | "wl_registry" => [{ name := "global", signature := [.uint, .str false, .uint] }]
      | "wl_pointer" => [{ name := "enter", signature := [.uint, .object false, .fixed, .fixed] },
          { name := "leave", signature := [.uint, .object false] }]
      | _ => [] }

/-- The pointer comes to a surface. -/
def pointerComes : List Action :=
  [.request ⟨displayId, 1, [.newId 2]⟩ ⟨some 10, true⟩,
    .event { sender := 10, opcode := 0, args := [.uint 1, .str (some "wl_compositor"), .uint 6] },
    .event { sender := 10, opcode := 0, args := [.uint 2, .str (some "wl_seat"), .uint 7] },
    .request ⟨2, 0, [.uint 1, .str (some "wl_compositor"), .uint 1, .newId 3]⟩ ⟨some 11, true⟩,
    .request ⟨2, 0, [.uint 2, .str (some "wl_seat"), .uint 1, .newId 4]⟩ ⟨some 12, true⟩,
    .request ⟨3, 0, [.newId 5]⟩ ⟨some 13, true⟩, .request ⟨4, 0, [.newId 6]⟩ ⟨some 14, true⟩,
    .event { sender := 14, opcode := 0, args := [.uint 1, .object (some 13), .fixed 0, .fixed 0] }]

/-- The bridge destroys the surface, and then the pointer leaves it. -/
def pointerStrays : List Action :=
  pointerComes ++ [.request ⟨5, 0, []⟩ ⟨some 0, true⟩,
    .event { sender := 14, opcode := 1, args := [.uint 2, .object (some 13)] }]

theorem events_faithful_example :
    ∃ s, run (step (Setting.bare pointerTable)) (State.initial Unit (Setting.bare pointerTable))
        pointerComes = some s ∧ Faithful [] s.log := by
  have hsome : (run (step (Setting.bare pointerTable)) (State.initial Unit (Setting.bare pointerTable))
      pointerComes).isSome = true := by
    decide
  obtain ⟨s, hs⟩ := Option.isSome_iff_exists.mp hsome
  exact ⟨s, hs, (events_faithful_iff _ (by decide) hs).mpr (by decide +kernel)⟩

/-- The events are as the protocols have them, and one that was sent with a surface is
written with none. -/
theorem stray_leave_written :
    StepsMeet (step (Setting.bare pointerTable)) Conforms
        (State.initial Unit (Setting.bare pointerTable)) pointerStrays ∧
      ∃ s, run (step (Setting.bare pointerTable)) (State.initial Unit (Setting.bare pointerTable))
          pointerStrays = some s ∧
        .event 6 14 "leave" [.uint 2, .object (some 13)] [.uint 2, .object 0] ∈ s.log := by
  refine ⟨by decide, ?_⟩
  have hsome : ((run (step (Setting.bare pointerTable))
      (State.initial Unit (Setting.bare pointerTable)) pointerStrays).any fun s =>
        decide (.event 6 14 "leave" [.uint 2, .object (some 13)] [.uint 2, .object 0] ∈ s.log)) = true := by
    decide
  obtain ⟨s, hs, hwritten⟩ := exists_of_any hsome
  exact ⟨s, hs, of_decide_eq_true hwritten⟩

end Psbox.Decorations
