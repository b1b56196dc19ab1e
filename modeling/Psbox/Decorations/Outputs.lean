import Psbox.Decorations.Effects
import Psbox.Decorations.References

/-!
# Output Modes

What the bridge hears of an output's current mode, against what the compositor said of it: its
mode, its transform and its scale, and the logical size that its `zxdg_output_v1`s say, or that the
proxy's own connection knows. Under a scale, a current mode reaches the bridge at a `done` and in no
other way, and it is then the one due (`current_modes_told`).

A `zxdg_output_v1` finds its output by the id, which may be another output's by now: then what it says
is taken for what was said of that one (`other_size_told`).
-/

namespace Psbox.Decorations

open Psbox.Foundations

variable {F : Type} {E : Setting F}

/-! ## Section 1: What the Compositor Says -/

/-- What the compositor last said of an output. -/
structure Said where
  mode : Option Mode := none
  logical : Option (Int × Int) := none
  rotated : Bool := false
  scale : Option Int := none
  deriving DecidableEq, Repr

/-- The arguments of `wl_output.mode`: flags, size and refresh rate. -/
def modeArgs : List UpstreamArg → Option Mode
  | [.uint flags, .int w, .int h, .int refresh] => some (flags, (w, h), refresh)
  | _ => none

/-- The transform, which `wl_output.geometry` ends with. -/
def transformArg : List UpstreamArg → Option Int
  | [.int _, .int _, .int _, .int _, .int _, .str _, .str _, .int transform] => some transform
  | _ => none

/-- The argument of `wl_output.scale`. -/
def scaleArg : List UpstreamArg → Option Int
  | [.int factor] => some factor
  | _ => none

/-- The arguments of `zxdg_output_v1.logical_size`. -/
def sizeArgs : List UpstreamArg → Option (Int × Int)
  | [.int w, .int h] => some (w, h)
  | _ => none

/-- The serial number of the output an event is about: the object that it is an event of, or the one that
this `zxdg_output_v1` was made for, whatever its id is by now. -/
def Obj.about (o : Obj) : Option Nat :=
  if o.iface.name = "zxdg_output_v1" then
    match o.role with
    | .xdgOutput output => output.born
    | _ => none
  else some o.born

/-- What an event says of an output. -/
def Said.hear (said : Said) (iface event : String) (args : List UpstreamArg) : Said :=
  match iface, event with
  | "wl_output", "mode" =>
      match modeArgs args with
      | some m => if m.1 % 2 = 1 then { said with mode := some m } else said
      | none => said
  | "wl_output", "geometry" =>
      match transformArg args with
      | some t => { said with rotated := [1, 3, 5, 7].contains t }
      | none => said
  | "wl_output", "scale" =>
      match scaleArg args with
      | some factor => { said with scale := some factor }
      | none => said
  | "zxdg_output_v1", "logical_size" =>
      match sizeArgs args with
      | some size => { said with logical := some size }
      | none => said
  | _, _ => said

/-- What is said of outputs, by their serial numbers, goes on with each event. -/
def hears (s : State F) (a : Action) (w : Nat → Said) : Nat → Said :=
  match a with
  | .event e =>
      match s.receiver e with
      | some (_, o, desc) =>
          match o.about with
          | some output => Function.update w output ((w output).hear o.iface.name desc.name e.args)
          | none => w
      | none => w
  | _ => w

/-- Events of outputs have the arguments the protocols give them. -/
def WellFormed (s : State F) : Action → Prop
  | .event e => ∀ x ∈ s.receiver e,
      match x.2.1.iface.name, x.2.2.name with
      | "wl_output", "mode" => (modeArgs e.args).isSome
      | "wl_output", "geometry" => (transformArg e.args).isSome
      | "wl_output", "scale" => (scaleArg e.args).isSome
      | "zxdg_output_v1", "logical_size" => (sizeArgs e.args).isSome
      | "wl_output", "done" | "zxdg_output_v1", "done" => e.args = []
      | _, _ => True
  | _ => True

instance (s : State F) : (a : Action) → Decidable (WellFormed s a)
  | .event e => by
      unfold WellFormed
      have hone : ∀ x : Id × Obj × MessageDesc, Decidable (match x.2.1.iface.name, x.2.2.name with
          | "wl_output", "mode" => ((modeArgs e.args).isSome : Prop)
          | "wl_output", "geometry" => (transformArg e.args).isSome
          | "wl_output", "scale" => (scaleArg e.args).isSome
          | "zxdg_output_v1", "logical_size" => (sizeArgs e.args).isSome
          | "wl_output", "done" | "zxdg_output_v1", "done" => e.args = []
          | _, _ => True) := by
        intro x
        split <;> infer_instance
      infer_instance
  | .request _ _ | .setOutput _ _ | .close _ => isTrue trivial

/-- Where a `zxdg_output_v1` says a size, the id that was recorded for its output is not another object's by
now. -/
def KnowsOutput (s : State F) : Action → Prop
  | .event e => ∀ x ∈ s.receiver e, x.2.1.iface.name = "zxdg_output_v1" → x.2.2.name = "logical_size" →
      match x.2.1.role with
      | .xdgOutput output => ∀ o ∈ s.obj output.id, output.born = some o.born
      | _ => True
  | _ => True

instance (s : State F) : (a : Action) → Decidable (KnowsOutput s a)
  | .event e => by
      unfold KnowsOutput
      have hone : ∀ x : Id × Obj × MessageDesc, Decidable (match x.2.1.role with
          | .xdgOutput output => ∀ o ∈ s.obj output.id, output.born = some o.born
          | _ => True) := by
        intro x
        split <;> infer_instance
      infer_instance
  | .request _ _ | .setOutput _ _ | .close _ => isTrue trivial

/-- What `scale::mode` gives for an output. The proxy's own connection knows its logical size and
its transform until the bridge's says a size. -/
def sizeDue (E : Setting F) (outputs : Table OutputGeometry) (global : Nat) (said : Said)
    (size : Int × Int) : Int × Int :=
  let own := outputs.lookup global
  let logical := said.logical.or (own.map OutputGeometry.logical)
  let rotated := match said.logical, own with
    | none, some g => g.rotated
    | _, _ => said.rotated
  scaledMode E.wholeRatio E.scale size logical rotated said.scale

/-- The mode the bridge is due to be told: the current one, of that size. -/
def modeDue (E : Setting F) (outputs : Table OutputGeometry) (global : Nat) (said : Said) : Option Mode :=
  said.mode.map fun m => (m.1, sizeDue E outputs global said m.2.1, m.2.2)

/-! ## Section 2: What the Bridge Hears -/

/-- The current mode an event of an output tells, if it does. -/
def currentMode : List BridgeArg → Option Mode
  | [.uint flags, .int w, .int h, .int refresh] =>
      if flags % 2 = 1 then some (flags, (w, h), refresh) else none
  | _ => none

/-- What an entry does for the current mode of an object: a new object has none. -/
def Entry.mode (id : Id) : Entry → Option (Option Mode)
  | .created _ j _ => if j = id then some none else none
  | .own j name args | .event j _ name _ args =>
      if j = id ∧ name = "mode" then (currentMode args).map some else none
  | _ => none

/-- A `done` of an object. -/
def Entry.isDone (id : Id) : Entry → Prop
  | .own j name _ | .event j _ name _ _ => j = id ∧ name = "done"
  | _ => False

instance (id : Id) (e : Entry) : Decidable (e.isDone id) := by
  unfold Entry.isDone
  split <;> infer_instance

/-- The current mode the bridge heard last of an object. -/
def heardMode (id : Id) (log : List Entry) : Option Mode :=
  (log.filterMap (Entry.mode id)).getLast?.join

/-- Nothing that the bridge hears of an object's mode. -/
def Entry.mute (id : Id) (e : Entry) : Prop :=
  e.mode id = none ∧ ¬e.isDone id

private theorem heardMode_append (id : Id) (log : List Entry) (e : Entry) :
    heardMode id (log ++ [e]) = (e.mode id).getD (heardMode id log) := by
  unfold heardMode
  rw [List.filterMap_append, List.getLast?_append]
  cases h : e.mode id with
  | none => simp [h]
  | some m => simp [h]

private theorem Entry.mute_of_name {id j : Id} {name : String} (hmode : name ≠ "mode") (hdone : name ≠ "done") :
    (∀ args, (Entry.own j name args).mute id) ∧ ∀ up sent args, (Entry.event j up name sent args).mute id := by
  have hif : ∀ args : List BridgeArg, (if j = id ∧ name = "mode" then (currentMode args).map some else none :
      Option (Option Mode)) = none := fun _ => if_neg fun hboth => hmode hboth.2
  exact ⟨fun args => ⟨hif args, fun hboth => hdone hboth.2⟩,
    fun up sent args => ⟨hif args, fun hboth => hdone hboth.2⟩⟩

private theorem Entry.mute_of_ne {id j : Id} (hne : j ≠ id) (name : String) :
    (∀ args, (Entry.own j name args).mute id) ∧ ∀ up sent args, (Entry.event j up name sent args).mute id := by
  have hif : ∀ args : List BridgeArg, (if j = id ∧ name = "mode" then (currentMode args).map some else none :
      Option (Option Mode)) = none := fun _ => if_neg fun hboth => hne hboth.1
  exact ⟨fun args => ⟨hif args, fun hboth => hne hboth.1⟩,
    fun up sent args => ⟨hif args, fun hboth => hne hboth.1⟩⟩

private theorem Entry.mute_created {id j : Id} (hne : j ≠ id) (origin : Origin) (kind : Kind) :
    (Entry.created origin j kind).mute id :=
  ⟨if_neg hne, fun hdone => hdone⟩

private theorem Entry.mute_of_asks {names : List String} {e : Entry} (h : e.asks names) (id : Id) : e.mute id := by
  cases e with
  | passed up name args => exact ⟨rfl, fun hdone => hdone⟩
  | _ => cases h

private theorem heardMode_of_none {id : Id} {log new : List Entry} (h : ∀ e ∈ new, e.mode id = none) :
    heardMode id (log ++ new) = heardMode id log := by
  unfold heardMode
  rw [List.filterMap_append, List.filterMap_eq_nil_iff.mpr h, List.append_nil]

/-- Between two states nothing is logged that the bridge hears of these objects' modes. -/
def Mutes (ids : Id → Prop) (s s' : State F) : Prop :=
  ∃ new, s'.log = s.log ++ new ∧ ∀ e ∈ new, ∀ id, ids id → e.mute id

namespace Mutes

variable {ids : Id → Prop} {s t u : State F}

theorem same (h : t.log = s.log) : Mutes ids s t :=
  ⟨[], by rw [h, List.append_nil], by simp⟩

theorem trans (h : Mutes ids s t) (h' : Mutes ids t u) : Mutes ids s u := by
  obtain ⟨new, hlog, hnew⟩ := h
  obtain ⟨new', hlog', hnew'⟩ := h'
  refine ⟨new ++ new', by rw [hlog', hlog, List.append_assoc], fun e he => ?_⟩
  rcases List.mem_append.mp he with he | he
  · exact hnew e he
  · exact hnew' e he

theorem note (s : State F) {e : Entry} (h : ∀ id, ids id → e.mute id) : Mutes ids s (s.note e) :=
  ⟨[e], rfl, by simpa using h⟩

theorem of_alters {tags : List Tag} {N : Entry → Prop} (h : Alters tags N s t)
    (hN : ∀ e, N e → ∀ id, e.mute id) : Mutes ids s t := by
  obtain ⟨new, hlog, hnew⟩ := h.log
  exact ⟨new, hlog, fun e he id _ => hN e (hnew e he) id⟩

end Mutes

/-- What the bridge heard of a mode stays. -/
theorem Mutes.heardMode {ids : Id → Prop} {s t : State F} (h : Mutes ids s t) {id : Id} (hid : ids id) :
    heardMode id t.log = heardMode id s.log := by
  obtain ⟨new, hlog, hnew⟩ := h
  rw [hlog, heardMode_of_none fun e he => (hnew e he id hid).1]

/-! ## Section 3: The Invariant -/

/-- An object that an id was recorded for has no other id. -/
structure State.Homed (s : State F) : Prop extends s.Serials where
  home : ∀ holder slot r b, s.Records holder slot r → r.born = some b →
    b < s.births ∧ ∀ id o, s.obj id = some o → o.born = b → id = r.id

namespace State.Homed

variable {s s' : State F}

/-- What is recorded now is of an object that is there. -/
theorem of_ref (h : s.Serials) {id : Id} {b : Nat} (hb : (s.ref id).born = some b) :
    b < s.births ∧ ∀ j o, s.obj j = some o → o.born = b → j = id := by
  obtain ⟨target, htarget, rfl⟩ := Option.map_eq_some_iff.mp hb
  exact ⟨h.lt id target htarget, fun j o ho hsame => h.inj j id o target ho htarget hsame⟩

/-- Some of the same objects, with the records that there were and those of now. -/
theorem of_born (h : s.Homed)
    (hborn : ∀ id o', s'.obj id = some o' → ∃ o, s.obj id = some o ∧ o.born = o'.born)
    (hrecords : ∀ holder slot r, s'.Records holder slot r → s.Records holder slot r ∨ r = s.ref r.id)
    (hbirths : s'.births = s.births) : s'.Homed := by
  refine ⟨h.toSerials.of_born hborn hbirths, ?_⟩
  intro holder slot r b hr hb
  have hold : b < s.births ∧ ∀ id o, s.obj id = some o → o.born = b → id = r.id := by
    rcases hrecords holder slot r hr with hr | hr
    · exact h.home holder slot r b hr hb
    · rw [hr] at hb
      exact of_ref h.toSerials hb
  refine ⟨hbirths ▸ hold.1, fun id o' ho' hsame => ?_⟩
  obtain ⟨o, ho, hb'⟩ := hborn id o' ho'
  exact hold.2 id o ho (hb'.trans hsame)

theorem of_quiet (h : s.Homed) (hq : Quiet s s') : s'.Homed := by
  refine h.of_born (fun id o' ho' => ?_) hq.refs hq.births
  have hborn := hq.born id
  rw [ho'] at hborn
  exact Option.map_eq_some_iff.mp hborn.symm

/-- The same, but for what no record is in. -/
theorem same (h : s.Homed) (hobjects : s'.objects = s.objects) (hframes : s'.frames = s.frames)
    (hbirths : s'.births = s.births) : s'.Homed := by
  have hobj : ∀ id, s'.obj id = s.obj id := fun id => by rw [obj, obj, hobjects]
  refine h.of_born (fun id o' ho' => ⟨o', hobj id ▸ ho', rfl⟩) (fun holder slot r hr => .inl ?_) hbirths
  rcases hr with ⟨o, ho, hr⟩ | ⟨hslot, f, hf, hr⟩
  · exact .inl ⟨o, hobj holder ▸ ho, hr⟩
  · exact .inr ⟨hslot, f, hframes ▸ hf, hr⟩

theorem create (h : s.Homed) (origin : Origin) (id : Id) (iface : Interface) (version : Nat) {kind : Kind}
    {role : Role} (hrole : role.refs = []) (hkind : ∀ x ∈ kind.refs, x.2 = s.ref x.2.id) :
    (s.create origin id iface version kind role).Homed := by
  refine ⟨h.toSerials.create origin id iface version kind role, ?_⟩
  intro holder slot r b hr hb
  have hold : b < s.births ∧ ∀ j o, s.obj j = some o → o.born = b → j = r.id := by
    rcases hr with ⟨o, ho, hr⟩ | hr
    · rw [obj_create] at ho
      split at ho
      · rw [← Option.some.inj ho, hrole] at hr
        rcases hr with hr | hr
        · cases hr
        · rw [show r = s.ref r.id from hkind (slot, r) hr] at hb
          exact of_ref h.toSerials hb
      · exact h.home holder slot r b (.inl ⟨o, ho, hr⟩) hb
    · exact h.home holder slot r b (.inr hr) hb
  refine ⟨Nat.lt_succ_of_lt hold.1, fun j o ho hsame => ?_⟩
  rw [obj_create] at ho
  split at ho
  · -- The new object has a number of its own.
    rw [← Option.some.inj ho] at hsame
    exact absurd hsame (ne_of_gt hold.1)
  · exact hold.2 j o ho hsame

theorem creates (h : s.Homed) {args : List BridgeArg} (hc : Creates args s s') : s'.Homed := by
  cases hc with
  | nothing hs =>
      rw [hs]
      exact h
  | new id iface version kind role data _ _ _ hrole hkind hs =>
      rw [hs]
      exact (h.create .bridge id iface version hrole fun x hx => (hkind x hx).1).same rfl rfl rfl

theorem ends (h : s.Homed) {id : Id} (he : Ends id s s') : s'.Homed := by
  refine h.of_born (fun j o' ho' => ?_) (fun holder slot r hr => .inl (records_of_ends he hr).1) ?_
  · cases he with
    | nothing hs => exact ⟨o', hs ▸ ho', rfl⟩
    | gone _ hs =>
        rw [hs, obj_deleteId, obj_destroy] at ho'
        split at ho'
        · cases ho'
        · exact ⟨o', ho', rfl⟩
  · cases he with
    | nothing hs => rw [hs]
    | gone _ hs =>
        rw [hs]
        unfold deleteId
        split <;> rfl

theorem requested (h : s.Homed) {m : Request} (hr : Requested m s s') : s'.Homed := by
  obtain ⟨t, u, v, hbefore, hcreates, hafter, hends⟩ := hr.parts
  exact (((h.of_quiet hbefore).creates hcreates).of_quiet hafter).ends hends

theorem receive (h : s.Homed) (desc : MessageDesc) (version : Nat) (alive : ObjectId → Bool)
    (args : List UpstreamArg) : (s.receive E desc version alive args).1.Homed := by
  apply receive_induction (P := State.Homed)
  · intro t iface up ht
    have hnext : State.Homed { t with nextServerId := t.nextServerId + 1 } := ht.same rfl rfl rfl
    exact hnext.create _ _ _ _ (refs_forInterface _) fun x hx => (nomatch hx)
  · intro t ht
    exact ht.same rfl rfl rfl
  · exact h

theorem delivered {bridge : Id} {iface : Interface} {desc : MessageDesc} {e : Event} {input : Incoming}
    {out : State F × List BridgeArg × Bool} (h : out.1.Homed)
    (hd : Delivered s s' bridge iface desc e input out) : s'.Homed := by
  obtain ⟨data, t, hends, hs⟩ := hd.parts
  have hnoted : Homed (if out.2.2 then
      out.1.note (.event bridge e.sender desc.name e.args out.2.1) else out.1) := by
    split
    · exact h.same rfl rfl rfl
    · exact h
  rw [hs]
  exact (hnoted.ends hends).same rfl rfl rfl

theorem step (h : s.Homed) (hkept : s.IdsKept) {a : Action} (ha : step E s a = some s') : s'.Homed := by
  cases a with
  | request m answer => exact h.requested (requested_of_step ha)
  | event e =>
      cases ha
      rcases s.event_cases (E := E) e with ⟨_, hs⟩ | ⟨bridge, o, desc, ht, ⟨_, hs⟩ | ⟨input, _, hs⟩⟩
      · rw [hs]
        exact h
      · rw [hs]
        exact h.receive desc o.version e.alive e.args
      · have hsome := isSome_of_upstream (hkept.receive_upstream (E := E) ht)
        have hd := delivered_deliver (E := E) hsome o.iface desc e input
        rw [hs]
        exact ((h.receive (E := E) desc o.version e.alive e.args).of_quiet hd.quiet).delivered hd
  | setOutput global geometry =>
      cases ha
      exact h.of_quiet (s.still_setOutput global geometry).toQuiet
  | close toplevel =>
      cases ha
      exact h.of_quiet (s.still_close toplevel).toQuiet

end State.Homed

private theorem State.homed_initial (F : Type) (E : Setting F) : (State.initial F E).Homed := by
  refine ⟨serials_initial F E, ?_⟩
  rintro holder slot r b (⟨o, ho, hr⟩ | ⟨_, f, hf, _⟩) _
  · rw [obj_initial] at ho
    split at ho
    · rw [← Option.some.inj ho] at hr
      rcases hr with hr | hr <;> cases hr
    · cases ho
  · cases hf

/-- What the proxy tracks of an output is what was said of it. -/
structure Said.Agrees (said : Said) (x : Output) : Prop where
  mode : x.mode = said.mode
  logical : x.logical = said.logical
  rotated : x.rotated = said.rotated
  scale : x.scale = said.scale.map (max · 1)

/-- The proxy knows of each output what was said of it, and of each of version 2 or later which
mode the bridge heard last. -/
structure State.Heeds (s : State F) (w : Nat → Said) : Prop where
  iface : ∀ id o x, s.obj id = some o → o.role = .output x → o.iface.name = "wl_output"
  said : ∀ id o x, s.obj id = some o → o.role = .output x → (w o.born).Agrees x
  heard : ∀ id o x, s.obj id = some o → o.role = .output x → 2 ≤ o.version →
    heardMode id s.log = x.told
  fresh : ∀ b, s.births ≤ b → w b = {}
  current : ∀ b m, (w b).mode = some m → m.1 % 2 = 1

/-- The id of an output, of version 2 or later. -/
def State.isOutput (s : State F) (id : Id) : Prop :=
  ∃ o x, s.obj id = some o ∧ o.role = .output x ∧ 2 ≤ o.version

namespace State.Heeds

variable {s s' : State F} {w w' : Nat → Said}

/-- The outputs are the same, and nothing was told of them. -/
theorem of_same (h : s.Heeds w) (hbirths : s.births ≤ s'.births)
    (hobj : ∀ id o' x, s'.obj id = some o' → o'.role = .output x →
      ∃ o, s.obj id = some o ∧ o.core = o'.core ∧ o.role = .output x)
    (hheard : ∀ id, s'.isOutput id → heardMode id s'.log = heardMode id s.log) : s'.Heeds w := by
  refine ⟨fun id o' x ho' hx => ?_, fun id o' x ho' hx => ?_, fun id o' x ho' hx hversion => ?_,
    fun b hb => h.fresh b (Nat.le_trans hbirths hb), h.current⟩
  all_goals
    obtain ⟨o, ho, hcore, hrole⟩ := hobj id o' x ho' hx
    obtain ⟨hiface, hv, _, hborn⟩ : o.iface = o'.iface ∧ o.version = o'.version ∧ o.kind = o'.kind ∧
        o.born = o'.born := by simpa [Obj.core] using hcore
  · rw [← hiface]
    exact h.iface id o x ho hrole
  · rw [← hborn]
    exact h.said id o x ho hrole
  · rw [hheard id ⟨o', x, ho', hx, hversion⟩]
    exact h.heard id o x ho hrole (hv ▸ hversion)

/-- A change of roles that makes no output. -/
theorem adjustRole (h : s.Heeds w) (id : Id) {f : Role → Role}
    (hf : ∀ r x, f r = .output x → r = .output x) : (s.adjustRole id f).Heeds w := by
  refine h.of_same (le_refl s.births) ?_ fun _ _ => rfl
  intro j o' x ho' hx
  rw [obj_adjustRole] at ho'
  split at ho'
  · obtain ⟨o, ho, rfl⟩ := Option.map_eq_some_iff.mp ho'
    exact ⟨o, ho, rfl, hf _ _ hx⟩
  · exact ⟨o', ho', rfl, hx⟩

/-- Bookkeeping that changes no outputs. -/
theorem of_alters (h : s.Heeds w) (hq : Quiet s s') {tags : List Tag} {N : Entry → Prop}
    (ha : Alters tags N s s') (htags : .output ∉ tags) (hN : ∀ e, N e → ∀ id, e.mute id) :
    s'.Heeds w := by
  refine h.of_same (le_of_eq hq.births.symm) ?_ fun id hid => (Mutes.of_alters ha hN).heardMode hid
  intro id o' x ho' hx
  have hrole := ha.of_role (role_eq_some.mpr ⟨o', ho', hx⟩) htags
  obtain ⟨o, ho, hrole⟩ := role_eq_some.mp hrole
  have hcore := hq.core id
  rw [ho, ho'] at hcore
  exact ⟨o, ho, (Option.some.inj hcore).symm, hrole⟩

theorem same (h : s.Heeds w) (hobj : s'.objects = s.objects) (hbirths : s'.births = s.births)
    (hheard : ∀ id, s'.isOutput id → heardMode id s'.log = heardMode id s.log) : s'.Heeds w := by
  have hsame : ∀ id, s'.obj id = s.obj id := fun id => by rw [obj, obj, hobj]
  apply h.of_same (le_of_eq hbirths.symm) _ hheard
  intro id o' x ho' hx
  exact ⟨o', hsame id ▸ ho', rfl, hx⟩

theorem note (h : s.Heeds w) {e : Entry} (he : ∀ id, s.isOutput id → e.mode id = none) :
    (s.note e).Heeds w := by
  refine h.same rfl rfl fun id hid => ?_
  show heardMode id (s.log ++ [e]) = _
  rw [heardMode_append, he id hid]
  rfl

/-- A new object is no output, or one of which nothing was said. -/
theorem create (h : s.Heeds w) (origin : Origin) (id : Id) {iface : Interface} (version : Nat)
    (kind : Kind) {role : Role}
    (hrole : ∀ x, role = .output x → iface.name = "wl_output" ∧ x = { global := x.global }) :
    (s.create origin id iface version kind role).Heeds w := by
  have hcases : ∀ j o x, (s.create origin id iface version kind role).obj j = some o →
      o.role = .output x → j = id ∧ o.iface = iface ∧ o.born = s.births ∧ role = .output x ∨
        j ≠ id ∧ s.obj j = some o := by
    intro j o x ho hx
    rw [obj_create] at ho
    split at ho
    · rename_i hj
      obtain rfl := Option.some.inj ho
      exact .inl ⟨hj, rfl, rfl, hx⟩
    · rename_i hj
      exact .inr ⟨hj, ho⟩
  refine ⟨fun j o x ho hx => ?_, fun j o x ho hx => ?_, fun j o x ho hx hversion => ?_, fun b hb => ?_,
    h.current⟩
  · rcases hcases j o x ho hx with ⟨_, hiface, _, hnew⟩ | ⟨_, ho⟩
    · rw [hiface]
      exact (hrole x hnew).1
    · exact h.iface j o x ho hx
  · rcases hcases j o x ho hx with ⟨_, _, hborn, hnew⟩ | ⟨_, ho⟩
    · rw [hborn, h.fresh _ le_rfl, (hrole x hnew).2]
      exact ⟨rfl, rfl, rfl, rfl⟩
    · exact h.said j o x ho hx
  · show heardMode j (s.log ++ [.created origin id kind]) = _
    rw [heardMode_append]
    rcases hcases j o x ho hx with ⟨rfl, _, _, hnew⟩ | ⟨hj, ho⟩
    · -- Whoever had the id before, the bridge has heard nothing of the new one.
      rw [(hrole x hnew).2]
      show (if j = j then some none else none : Option (Option Mode)).getD _ = none
      rw [if_pos rfl]
      rfl
    · show (if id = j then some none else none : Option (Option Mode)).getD _ = _
      rw [if_neg (Ne.symm hj)]
      exact h.heard j o x ho hx hversion
  · exact h.fresh b (Nat.le_of_succ_le hb)

theorem destroy (h : s.Heeds w) (id : Id) : ((s.destroy id).deleteId id).Heeds w := by
  have hgone : (s.destroy id).Heeds w := by
    refine h.of_same (le_refl s.births) ?_ fun j _ => ?_
    · intro j o x ho hx
      rw [obj_destroy] at ho
      split at ho
      · cases ho
      · exact ⟨o, ho, rfl, hx⟩
    · exact (heardMode_append j s.log (.destroyed id)).trans rfl
  unfold deleteId
  split
  · exact hgone.note fun _ _ => rfl
  · exact hgone

end State.Heeds

/-! ## Section 4: Requests -/

private theorem Role.forInterface_output {name : String} {x : Output} (h : Role.forInterface name = .output x) :
    name = "wl_output" ∧ x = {} := by
  unfold Role.forInterface at h
  split at h
  · cases h
  split at h
  · rename_i hname
    exact ⟨hname, (Role.output.inj h).symm⟩
  split at h
  · cases h
  split at h
  · cases h
  split at h
  · cases h
  split at h <;> cases h

private theorem State.boundRole_output {iface : String} {name : Nat} {x : Output}
    (h : boundRole iface name = .output x) :
    iface = "wl_output" ∧ x = { global := x.global } := by
  unfold boundRole at h
  split at h
  · rename_i o ho
    obtain ⟨hname, rfl⟩ := Role.forInterface_output ho
    obtain rfl := Role.output.inj h
    exact ⟨hname, rfl⟩
  · obtain ⟨hname, rfl⟩ := Role.forInterface_output h
    exact ⟨hname, rfl⟩

/-- From one state to another, outputs are as they were, and the bridge hears nothing of their
modes. -/
structure Undisturbed (w : Nat → Said) (s t : State F) : Prop where
  heeds : t.Heeds w
  mutes : Mutes s.isOutput s t

namespace State

variable {s s' t : State F} {w : Nat → Said}

private theorem Heeds.undisturbed (h : s.Heeds w) : Undisturbed w s s :=
  ⟨h, Mutes.same rfl⟩

private theorem checkNewId_ne {id j : Id} (hid : s.isOutput id) (hnew : s.checkNewId j = .ok ()) : j ≠ id := by
  obtain ⟨o, x, ho, _⟩ := hid
  rintro rfl
  rw [(checkNewId_eq_ok.mp hnew).2.2] at ho
  cases ho

end State

namespace Undisturbed

variable {s t u : State F} {w : Nat → Said}

theorem of_alters (h : Undisturbed w s t) (hq : Quiet t u) {tags : List Tag} {N : Entry → Prop}
    (ha : Alters tags N t u) (htags : .output ∉ tags) (hN : ∀ e, N e → ∀ id, e.mute id) :
    Undisturbed w s u :=
  ⟨h.heeds.of_alters hq ha htags hN, h.mutes.trans (Mutes.of_alters ha hN)⟩

private theorem of_asks (h : Undisturbed w s t) (hq : Quiet t u) {tags : List Tag} {names : List String}
    (ha : Alters tags (Entry.asks names) t u) (htags : .output ∉ tags) : Undisturbed w s u :=
  h.of_alters hq ha htags fun _ he => Entry.mute_of_asks he

theorem note (h : Undisturbed w s t) {e : Entry} (he : ∀ id, e.mute id) : Undisturbed w s (t.note e) :=
  ⟨h.heeds.note fun id _ => (he id).1, h.mutes.trans (Mutes.note t fun id _ => he id)⟩

theorem adjustRole (h : Undisturbed w s t) (id : Id) {f : Role → Role}
    (hf : ∀ r x, f r = .output x → r = .output x) : Undisturbed w s (t.adjustRole id f) :=
  ⟨h.heeds.adjustRole id hf, h.mutes.trans (Mutes.same rfl)⟩

theorem create (h : Undisturbed w s t) {id : Id} {iface : Interface} (version : Nat) (kind : Kind)
    {role : Role} (hnew : s.checkNewId id = .ok ())
    (hrole : ∀ x, role = .output x → iface.name = "wl_output" ∧ x = { global := x.global }) :
    Undisturbed w s (t.create .bridge id iface version kind role) := by
  refine ⟨h.heeds.create .bridge id version kind hrole, h.mutes.trans ⟨[.created .bridge id kind], rfl, ?_⟩⟩
  intro e he j hj
  rw [List.mem_singleton.mp he]
  exact Entry.mute_created (State.checkNewId_ne hj hnew) _ _

theorem with_data (h : Undisturbed w s t) (data : Table Id) : Undisturbed w s { t with data := data } :=
  ⟨h.heeds.same rfl rfl fun _ _ => rfl, h.mutes.trans (Mutes.same rfl)⟩

theorem createForwarded (h : Undisturbed w s t) {id : Id} (iface : Interface) (version : Nat)
    (up : ObjectId) {role : Role} (hnew : s.checkNewId id = .ok ())
    (hrole : ∀ x, role = .output x → iface.name = "wl_output" ∧ x = { global := x.global }) :
    Undisturbed w s (t.createForwarded id iface version up role) :=
  (h.create version (.upstream (some up)) hnew hrole).with_data _

theorem destroy (h : Undisturbed w s t) (id : Id) : Undisturbed w s ((t.destroy id).deleteId id) := by
  refine ⟨h.heeds.destroy id, h.mutes.trans ?_⟩
  have hplain : ∀ {e : Entry} {j : Id}, e = .destroyed id ∨ e = .deleteId id → e.mute j := by
    rintro e j (rfl | rfl) <;> exact ⟨rfl, fun hdone => hdone⟩
  have hdestroy : Mutes s.isOutput t (t.destroy id) :=
    ⟨[.destroyed id], rfl, fun e he _ _ => hplain (.inl (List.mem_singleton.mp he))⟩
  unfold State.deleteId
  split
  · exact hdestroy.trans (Mutes.note _ fun _ _ => hplain (.inr rfl))
  · exact hdestroy

theorem setChildRole (h : Undisturbed w s t) (child : Option Id) {role : Role}
    (hrole : ∀ x, role ≠ .output x) : Undisturbed w s (t.setChildRole child role) := by
  cases child with
  | none => exact h
  | some c => exact h.adjustRole c fun _ x hx => absurd hx (hrole x)

theorem apply (h : Undisturbed w s t) (sender : Id) (child : Option Id) (after : State.After) :
    Undisturbed w s (t.apply sender child after) := by
  cases after with
  | nothing => exact h
  | reposition positioner offset =>
      exact h.of_asks (State.still_restorePositioner _ _ _).toQuiet
        (State.alters_restorePositioner _ _ _) List.not_mem_nil
  | buffer _ _ | viewport _ | xdgOutput _ | xdgSurface _ =>
      apply h.setChildRole child
      intro x hx
      cases hx
  | toplevel =>
      cases child with
      | none => exact h
      | some c =>
          apply Undisturbed.setChildRole _ (some c)
          · intro x hx
            cases hx
          · apply h.adjustRole
            intro r x hx
            cases r <;> first | exact hx | cases hx
  | popup parent positioner offset =>
      have hrestored : Undisturbed w s (t.restorePositioner positioner offset) :=
        h.of_asks (State.still_restorePositioner _ _ _).toQuiet
          (State.alters_restorePositioner _ _ _) List.not_mem_nil
      apply hrestored.setChildRole child
      intro x hx
      cases hx

end Undisturbed

namespace State

variable {s s' : State F} {w : Nat → Said}

private theorem output_not_mem_requestTags (iface : String) : .output ∉ requestTags iface := by
  unfold requestTags
  split
  · decide
  split <;> decide

theorem Heeds.forward (h : s.Heeds w) {obj : Obj} {desc : MessageDesc} {up : Option ObjectId}
    {m : Request} {answer : Answer} (hs : s.forward E obj desc up m answer = .ok s') :
    Undisturbed w s s' := by
  have hquiet := s.quiet_beforeRequest (E := E) m.sender obj.iface.name desc.name m.args
  have hbefore := h.undisturbed.of_asks hquiet
    (s.alters_beforeRequest m.sender obj.iface.name desc.name m.args) (output_not_mem_requestTags _)
  rcases forward_cases hs with ⟨_, rfl⟩ | ⟨out, _, htranslate, rfl⟩
  · exact hbefore
  unfold complete
  dsimp only
  generalize (if out.dead then none else up.bind fun _ => answer.sent) = sent
  generalize (afterRequest _ _ _ _ _ _) = after
  generalize (beforeRequest E s m.sender obj.iface.name desc.name m.args) = before at *
  have hpass : Undisturbed w s (before.1.pass up sent desc.name out.args) := by
    unfold pass
    split
    · exact hbefore.note fun _ => ⟨rfl, fun hdone => hdone⟩
    · exact hbefore
  have hchild : Undisturbed w s
      ((before.1.pass up sent desc.name out.args).createChild E out.child obj.version sent) := by
    unfold createChild
    split
    · exact hpass
    · rename_i id name hout
      have hnew : s.checkNewId id = .ok () :=
        (hquiet.checkNewId id).symm.trans (newId_of_translate htranslate hout).2
      dsimp only
      split
      · refine hpass.createForwarded _ _ _ hnew fun x hx => ?_
        obtain ⟨hname, rfl⟩ := Role.forInterface_output hx
        exact ⟨hname, rfl⟩
      · exact hpass.create _ _ hnew fun _ hx => by cases hx
  have happly := hchild.apply m.sender (out.child.map Prod.fst) after
  split
  · exact happly.destroy m.sender
  · exact happly

theorem Heeds.request (h : s.Heeds w) {m : Request} {answer : Answer}
    (hs : s.request E m answer = .ok s') : Undisturbed w s s' := by
  have hown : ∀ (j : Id) {name : String}, name ≠ "mode" → name ≠ "done" → ∀ args id,
      (Entry.own j name args).mute id := by
    intro j name hmode hdone args id
    exact (Entry.mute_of_name hmode hdone).1 args
  have hremoved : ∀ toplevel, Undisturbed w s (s.removeFrame toplevel) := fun toplevel =>
    h.undisturbed.of_asks (s.still_removeFrame toplevel).toQuiet (s.alters_removeFrame toplevel)
      List.not_mem_nil
  obtain ⟨obj, desc, _, _, _, _, hcases⟩ := request_cases hs
  rcases hcases with ⟨_, hs⟩ | ⟨_, hs⟩ | ⟨toplevel, _, hs⟩ | ⟨up, _, ⟨_, hs⟩ | ⟨_, hs⟩⟩
  · -- The display
    obtain ⟨child, name, up, _, hnew, _, hs⟩ := displayRequest_cases hs
    have hcreated := h.undisturbed.createForwarded (E.table name) 1 up hnew fun x hx => by
      obtain ⟨hname, rfl⟩ := Role.forInterface_output hx
      exact ⟨hname, rfl⟩
    rcases hs with rfl | ⟨args, rfl⟩
    · exact hcreated
    · exact hcreated.note (hown child (by decide) (by decide) args)
  · -- The decoration manager
    rcases managerRequest_cases hs with ⟨_, rfl⟩ | ⟨_, id, toplevel, hnew, rfl⟩
    · exact h.undisturbed.destroy m.sender
    · exact h.undisturbed.create _ _ hnew fun _ hx => by cases hx
  · -- A decoration
    rcases decorationRequest_cases hs with
      ⟨_, rfl⟩ | ⟨_, ⟨t, mode, ht, rfl⟩ | ⟨mode, _, rfl⟩ | ⟨mode, rfl⟩⟩
    · exact (hremoved toplevel.id).destroy m.sender
    · have hadded := h.undisturbed.of_asks (still_addFrame ht).toQuiet (alters_addFrame ht)
        List.not_mem_nil
      exact hadded.note (hown m.sender (by decide) (by decide) _)
    · exact h.undisturbed.note (hown m.sender (by decide) (by decide) _)
    · exact (hremoved toplevel.id).note (hown m.sender (by decide) (by decide) _)
  · -- The registry
    obtain ⟨child, _, hnew, ⟨version, rfl⟩ | ⟨global, version, up, name, _, rfl⟩⟩ := bind_cases hs
    · exact h.undisturbed.create _ _ hnew fun _ hx => by cases hx
    · exact h.undisturbed.createForwarded _ _ _ hnew fun x hx => boundRole_output hx
  · exact h.forward hs

/-! ## Section 5: Telling a Mode -/

private theorem scaledMode_max (wholeRatio : Int → Int → Int) (scale : XwaylandScale) (mode : Int × Int)
    (logical : Option (Int × Int)) (rotated : Bool) (whole : Option Int) :
    scaledMode wholeRatio scale mode logical rotated (whole.map (max · 1)) =
      scaledMode wholeRatio scale mode logical rotated whole := by
  cases whole with
  | none => rfl
  | some factor =>
      have hclamp : max 1 (min 16 (max factor 1)) = max 1 (min 16 factor) := by omega
      unfold scaledMode
      simp only [Option.map_some, Option.getD_some, hclamp]

/-- What the proxy works out is what is due. -/
theorem Heeds.toldMode (h : s.Heeds w) {id : Id} {o : Obj} {x : Output} (ho : s.obj id = some o)
    (hx : o.role = .output x) :
    s.toldMode E id = (w o.born).mode.map fun m => sizeDue E s.outputs x.global (w o.born) m.2.1 := by
  obtain ⟨hmode, hlogical, hrotated, hscale⟩ := h.said id o x ho hx
  have hrole : s.role id = some (.output x) := role_eq_some.mpr ⟨o, ho, hx⟩
  unfold State.toldMode
  rw [hrole]
  dsimp only
  rw [hmode, hlogical, hrotated, hscale]
  congr 1
  funext m
  exact scaledMode_max _ _ _ _ _ _

/-- What goes with a mode: a logical size for each `zxdg_output_v1`. -/
def sizesTold (logical : Int × Int) (xs : List (Id × Nat)) : List Entry :=
  xs.flatMap fun x => .own x.1 "logical_size" [.int logical.1, .int logical.2] ::
    if x.2 < 3 then [.own x.1 "done" []] else []

private theorem foldl_tellLogicalSize (logical : Int × Int) (xs : List (Id × Nat)) (t : State F) :
    xs.foldl (tellLogicalSize logical) t = { t with log := t.log ++ sizesTold logical xs } := by
  induction xs generalizing t with
  | nil =>
      show t = { t with log := t.log ++ [] }
      rw [List.append_nil]
  | cons x xs ih =>
      rw [List.foldl_cons, ih]
      have hone : (t.tellLogicalSize logical x).log =
          t.log ++ sizesTold logical [x] := by
        unfold tellLogicalSize sizesTold
        dsimp only
        split
        · rename_i hversion
          simp [State.note, hversion]
        · rename_i hversion
          simp [State.note, hversion]
      have hsame : { t.tellLogicalSize logical x with log := t.log } = t := by
        unfold tellLogicalSize
        dsimp only
        split <;> rfl
      have hcons : sizesTold logical (x :: xs) = sizesTold logical [x] ++ sizesTold logical xs := by
        simp [sizesTold]
      rw [hone, hcons, List.append_assoc]
      conv_rhs => rw [← hsame]

/-- What tells the bridge a mode. -/
def modeTold (id : Id) (m : Mode) (rotated : Bool) (xs : List (Id × Nat)) (done : Bool) : List Entry :=
  .own id "mode" [.uint m.1, .int m.2.1.1, .int m.2.1.2, .int m.2.2] ::
    (sizesTold (if rotated then (m.2.1.2, m.2.1.1) else m.2.1) xs ++
      if done then [.own id "done" []] else [])

private theorem tellMode_eq {id : Id} {o : Obj} {x : Output} {m : Mode} {told : Int × Int}
    (ho : s.obj id = some o) (hx : o.role = .output x) (hmode : x.mode = some m)
    (htold : s.toldMode E id = some told) (done : Bool) :
    s.tellMode E id done =
      let s' := s.adjustOutput id fun o => { o with told := some (m.1, told, m.2.2) }
      let entries := modeTold id (m.1, told, m.2.2) x.rotated (s.xdgOutputs id) (done ∧ 2 ≤ o.version)
      if x.told = some (m.1, told, m.2.2) then s' else { s' with log := s.log ++ entries } := by
  have hrole : s.role id = some (.output x) := role_eq_some.mpr ⟨o, ho, hx⟩
  unfold State.tellMode
  rw [htold, hrole]
  dsimp only
  rw [hmode]
  dsimp only
  split
  · rfl
  · rw [foldl_tellLogicalSize, ho]
    unfold modeTold
    show (if done = true ∧ 2 ≤ o.version then _ else _) = _
    split
    · rename_i hdone
      rw [if_pos (decide_eq_true hdone)]
      unfold State.note
      dsimp only
      rw [List.append_assoc, List.append_assoc]
      rfl
    · rename_i hdone
      rw [if_neg fun h => hdone (of_decide_eq_true h), List.append_nil]
      unfold State.note
      dsimp only
      rw [List.append_assoc]
      rfl

private theorem not_mem_xdgOutputs {id : Id} {o : Obj} {x : Output} (ho : s.obj id = some o)
    (hx : o.role = .output x) {output : Id} {y : Id × Nat} (hy : y ∈ s.xdgOutputs output) : y.1 ≠ id := by
  obtain ⟨⟨j, o'⟩, hmem, hsome⟩ := List.mem_filterMap.mp hy
  dsimp only at hsome
  split at hsome
  · rename_i r hr
    split at hsome
    · obtain rfl := Option.some.inj hsome
      rintro rfl
      -- One id, one role.
      have ho' : s.obj j = some o' := AList.mem_lookup_iff.mpr hmem
      obtain rfl := Option.some.inj (ho.symm.trans ho')
      rw [hx] at hr
      cases hr
    · cases hsome
  · cases hsome

/-- The sizes are no modes, nor a `done` of the output's. -/
theorem sizesTold_mute {id : Id} {xs : List (Id × Nat)} (hne : ∀ y ∈ xs, y.1 ≠ id) (logical : Int × Int)
    {e : Entry} (he : e ∈ sizesTold logical xs) : e.mute id := by
  obtain ⟨y, hy, he⟩ := List.mem_flatMap.mp he
  rcases List.mem_cons.mp he with rfl | he
  · exact (Entry.mute_of_ne (hne y hy) _).1 _
  · split at he
    · rw [List.mem_singleton.mp he]
      exact (Entry.mute_of_ne (hne y hy) _).1 _
    · cases he

/-- Another output hears nothing of it. -/
theorem modeTold_mute {id output : Id} (hne : output ≠ id) {xs : List (Id × Nat)} (hxs : ∀ y ∈ xs, y.1 ≠ id)
    (m : Mode) (rotated done : Bool) {e : Entry} (he : e ∈ modeTold output m rotated xs done) :
    e.mute id := by
  rcases List.mem_cons.mp he with rfl | he
  · exact (Entry.mute_of_ne hne _).1 _
  rcases List.mem_append.mp he with he | he
  · exact sizesTold_mute hxs _ he
  · split at he
    · rw [List.mem_singleton.mp he]
      exact (Entry.mute_of_ne hne _).1 _
    · cases he

private theorem mode_own_mode {id : Id} {m : Mode} (hm : m.1 % 2 = 1) :
    (Entry.own id "mode" [.uint m.1, .int m.2.1.1, .int m.2.1.2, .int m.2.2]).mode id = some (some m) := by
  show (if id = id ∧ "mode" = "mode" then (currentMode _).map some else none) = _
  rw [if_pos ⟨rfl, rfl⟩]
  show Option.map some (if m.1 % 2 = 1 then some _ else none) = _
  rw [if_pos hm]
  rfl

/-- After what tells a mode, that is the mode that was heard. -/
theorem heardMode_modeTold {id : Id} {m : Mode} (hm : m.1 % 2 = 1) {xs : List (Id × Nat)}
    (hxs : ∀ y ∈ xs, y.1 ≠ id) (rotated done : Bool) (log : List Entry) :
    heardMode id (log ++ modeTold id m rotated xs done) = some m := by
  unfold modeTold
  rw [List.append_cons, heardMode_of_none, heardMode_append, mode_own_mode hm]
  · rfl
  · intro e he
    rcases List.mem_append.mp he with he | he
    · exact (sizesTold_mute hxs _ he).1
    · split at he
      · rw [List.mem_singleton.mp he]
        exact if_neg fun hboth => absurd hboth.2 (by decide)
      · cases he

/-- A change of an output that what was said of it agrees with. -/
theorem Heeds.adjustOutput (h : s.Heeds w) {id : Id} {o : Obj} (ho : s.obj id = some o)
    (hserials : s.Serials) {said : Said} {f : Output → Output}
    (hf : ∀ x, o.role = .output x → said.Agrees (f x))
    (hcurrent : ∀ m, said.mode = some m → m.1 % 2 = 1) {t : State F}
    (hobjects : t.objects = (s.adjustOutput id f).objects) (hbirths : t.births = s.births)
    (hself : ∀ x, o.role = .output x → 2 ≤ o.version → heardMode id t.log = (f x).told)
    (hothers : ∀ j, j ≠ id → s.isOutput j → heardMode j t.log = heardMode j s.log) :
    t.Heeds (Function.update w o.born said) := by
  -- An output of the new state: this one, with what was changed, or another.
  have hcases : ∀ j o' x, t.obj j = some o' → o'.role = .output x →
      j = id ∧ o'.iface = o.iface ∧ o'.version = o.version ∧ o'.born = o.born ∧
          (∃ x', o.role = .output x' ∧ x = f x') ∨
        j ≠ id ∧ s.obj j = some o' := by
    intro j o' x ho' hx
    have hsame : t.obj j = (s.adjustOutput id f).obj j := by rw [obj, obj, hobjects]
    rw [hsame] at ho'
    unfold State.adjustOutput at ho'
    rw [obj_adjustRole] at ho'
    split at ho'
    · rename_i hj
      rw [hj, ho, Option.map_some] at ho'
      obtain rfl := Option.some.inj ho'
      refine .inl ⟨hj, rfl, rfl, rfl, ?_⟩
      dsimp only at hx
      split at hx
      · rename_i x' hx'
        exact ⟨x', hx', (Role.output.inj hx).symm⟩
      · rename_i hother
        exact absurd hx (hother x)
    · rename_i hj
      exact .inr ⟨hj, ho'⟩
  have hwother : ∀ j o', j ≠ id → s.obj j = some o' → Function.update w o.born said o'.born = w o'.born := by
    intro j o' hj ho'
    apply Function.update_of_ne
    intro hborn
    exact hj (hserials.inj j id o' o ho' ho hborn)
  refine ⟨fun j o' x ho' hx => ?_, fun j o' x ho' hx => ?_, fun j o' x ho' hx hversion => ?_, fun b hb => ?_,
    fun b m hm => ?_⟩
  · rcases hcases j o' x ho' hx with ⟨_, hiface, _, _, x', hx', _⟩ | ⟨_, ho'⟩
    · rw [hiface]
      exact h.iface id o x' ho hx'
    · exact h.iface j o' x ho' hx
  · rcases hcases j o' x ho' hx with ⟨_, _, _, hborn, x', hx', rfl⟩ | ⟨hj, ho'⟩
    · rw [hborn, Function.update_self]
      exact hf x' hx'
    · rw [hwother j o' hj ho']
      exact h.said j o' x ho' hx
  · rcases hcases j o' x ho' hx with ⟨rfl, _, hv, _, x', hx', rfl⟩ | ⟨hj, ho'⟩
    · exact hself x' hx' (hv ▸ hversion)
    · rw [hothers j hj ⟨o', x, ho', hx, hversion⟩]
      exact h.heard j o' x ho' hx hversion
  -- Of an output that is still to be made nothing was said.
  · have hlt := hserials.lt id o ho
    rw [Function.update_of_ne (by omega)]
    exact h.fresh b (hbirths ▸ hb)
  · by_cases hb : b = o.born
    · rw [hb, Function.update_self] at hm
      exact hcurrent m hm
    · rw [Function.update_of_ne hb] at hm
      exact h.current b m hm

/-- Telling what is due is all that is logged, and then the bridge has heard what is due. -/
theorem Heeds.tells (h : s.Heeds w) (hserials : s.Serials) {id : Id} {o : Obj} {x : Output}
    (ho : s.obj id = some o) (hx : o.role = .output x) (done : Bool) :
    (s.tellMode E id done).Heeds w ∧
      (∃ new, (s.tellMode E id done).log = s.log ++ new ∧
        (new = [] ∨ ∃ m, modeDue E s.outputs x.global (w o.born) = some m ∧ m.1 % 2 = 1 ∧
          new = modeTold id m x.rotated (s.xdgOutputs id) (done ∧ 2 ≤ o.version)) ∧
        ((w o.born).mode.isSome → 2 ≤ o.version →
          heardMode id (s.log ++ new) = modeDue E s.outputs x.global (w o.born))) := by
  have hsaid := h.said id o x ho hx
  have htold := h.toldMode (E := E) ho hx
  -- Without a mode there is nothing to tell.
  cases hm : (w o.born).mode with
  | none =>
      -- No mode yet: nothing is told.
      rw [hm] at htold
      have hnothing : s.tellMode E id done = s := by
        unfold State.tellMode
        rw [htold]
        rfl
      rw [hnothing]
      exact ⟨h, [], (List.append_nil _).symm, .inl rfl, nofun⟩
  | some m =>
      rw [hm, Option.map_some] at htold
      have hdue : modeDue E s.outputs x.global (w o.born) =
          some (m.1, sizeDue E s.outputs x.global (w o.born) m.2.1, m.2.2) := by
        unfold modeDue
        rw [hm]
        rfl
      have hodd : m.1 % 2 = 1 := h.current _ m hm
      have hne : ∀ y ∈ s.xdgOutputs id, y.1 ≠ id := fun y hy => not_mem_xdgOutputs ho hx hy
      have hsame : Function.update w o.born (w o.born) = w := Function.update_eq_self _ _
      rw [hdue]
      generalize hnext : ((m.1, sizeDue E s.outputs x.global (w o.born) m.2.1, m.2.2) : Mode) = m'
      have heq := tellMode_eq ho hx (hsaid.mode.trans hm) htold done
      rw [hnext] at heq
      have hodd' : m'.1 % 2 = 1 := by rw [← hnext]; exact hodd
      have hagrees : ∀ x', o.role = .output x' → (w o.born).Agrees { x' with told := some m' } := by
        intro x' hx'
        obtain rfl : x = x' := Role.output.inj (hx.symm.trans hx')
        exact ⟨hsaid.mode, hsaid.logical, hsaid.rotated, hsaid.scale⟩
      rw [heq]
      dsimp only
      split
      · rename_i hunchanged
        have hheard : 2 ≤ o.version → heardMode id s.log = some m' := fun hversion =>
          (h.heard id o x ho hx hversion).trans hunchanged
        refine ⟨?_, [], (List.append_nil _).symm, .inl rfl, fun _ hversion => ?_⟩
        · rw [← hsame]
          exact h.adjustOutput ho hserials hagrees (h.current _) rfl rfl
            (fun x' hx' hversion => hheard hversion) fun _ _ _ => rfl
        · rw [List.append_nil]
          exact hheard hversion
      · have hheard := heardMode_modeTold hodd' hne x.rotated (decide (done ∧ 2 ≤ o.version)) s.log
        refine ⟨?_, _, rfl, .inr ⟨m', rfl, hodd', rfl⟩, fun _ _ => hheard⟩
        rw [← hsame]
        refine h.adjustOutput ho hserials hagrees (h.current _) rfl rfl (fun _ _ _ => hheard) ?_
        intro j hj hout
        obtain ⟨o', x', ho', hx', _⟩ := hout
        apply heardMode_of_none
        intro e he
        exact (modeTold_mute (Ne.symm hj) (fun y hy => not_mem_xdgOutputs ho' hx' hy) _ _ _ he).1

end State

/-! ## Section 6: What a Step Tells -/

open State

/-- A `zxdg_output_v1` that was made for the output that has this id. -/
def State.MadeFor (s : State F) (id xdgOutput : Id) : Prop :=
  ∃ o output, s.obj id = some o ∧ s.role xdgOutput = some (.xdgOutput output) ∧ output.born = some o.born

/-- After a mode, and before the output's next `done`, comes a logical size on each of the
`zxdg_output_v1`s that were made for it. -/
def Followed (s : State F) (id : Id) (post : List Entry) : Prop :=
  ∃ mid d rest, post = mid ++ d :: rest ∧ d.isDone id ∧ (∀ e ∈ mid, ¬e.isDone id) ∧
    ∀ y, s.MadeFor id y → ∃ args, .own y "logical_size" args ∈ mid

/-- The proxy finds what was made for an output. -/
theorem State.Homed.mem_xdgOutputs {s : State F} (h : s.Homed) {id y : Id} (hy : s.MadeFor id y) :
    ∃ version, (y, version) ∈ s.xdgOutputs id := by
  obtain ⟨o, output, ho, hrole, hborn⟩ := hy
  obtain ⟨x, hx, hxrole⟩ := role_eq_some.mp hrole
  have hrecords : s.Records y .object output := .inl ⟨x, hx, .inl (by simp [hxrole, Role.refs])⟩
  have hid := (h.home y .object output o.born hrecords hborn).2 id o ho rfl
  refine ⟨x.version, List.mem_filterMap.mpr ⟨⟨y, x⟩, AList.mem_lookup_iff.mp hx, ?_⟩⟩
  simp [hxrole, hid]

/-- What the bridge hears of an output in a step, entry by entry: at a `done`, it has heard the
mode that is due, if there was one; and a current mode is the one due, told by the proxy, and
followed by sizes. -/
def TellsDue (due : Option Mode) (s s' : State F) (id : Id) : Prop :=
  ∀ pre e post, s'.log = pre ++ e :: post → s.log.length ≤ pre.length →
    (e.isDone id → due.isSome → heardMode id pre = due) ∧
      ∀ m, e.mode id = some (some m) → due = some m ∧ (∃ args, e = .own id "mode" args) ∧ Followed s id post

theorem split_new {log new pre post : List Entry} {e : Entry} (h : log ++ new = pre ++ e :: post)
    (hlength : log.length ≤ pre.length) : ∃ pre', pre = log ++ pre' ∧ new = pre' ++ e :: post := by
  rcases List.append_eq_append_iff.mp h with ⟨pre', hpre, hnew⟩ | ⟨mid, hlog, hmid⟩
  · exact ⟨pre', hpre, hnew⟩
  · -- Nothing of the old log comes after.
    have hnil : mid = [] := by
      have := congrArg List.length hlog
      rw [List.length_append] at this
      exact List.eq_nil_of_length_eq_zero (by omega)
    subst hnil
    rw [List.append_nil] at hlog
    exact ⟨[], by rw [hlog, List.append_nil], by simpa using hmid.symm⟩

private theorem TellsDue.of_mutes {due : Option Mode} {s s' : State F} {ids : Id → Prop} (h : Mutes ids s s')
    {id : Id} (hid : ids id) : TellsDue due s s' id := by
  obtain ⟨new, hlog, hnew⟩ := h
  intro pre e post hs' hlength
  obtain ⟨pre', _, hsplit⟩ := split_new (hlog ▸ hs') hlength
  have hmute := hnew e (by rw [hsplit]; simp) id hid
  refine ⟨fun hdone => absurd hdone hmute.2, fun m hm => ?_⟩
  rw [hmute.1] at hm
  cases hm

/-- What is told at a `done`, with what comes after it. -/
theorem TellsDue.of_told {due : Option Mode} {s s' : State F} {id : Id} {new rest : List Entry}
    {rotated done : Bool} (hlog : s'.log = s.log ++ new ++ rest)
    (hnew : new = [] ∨ ∃ m, due = some m ∧ m.1 % 2 = 1 ∧ new = modeTold id m rotated (s.xdgOutputs id) done)
    (hheard : due.isSome → heardMode id (s.log ++ new) = due) (hrest : ∀ e ∈ rest, e.mode id = none)
    (hdone : done = false → ∃ d rest', rest = d :: rest' ∧ d.isDone id)
    (hne : ∀ y ∈ s.xdgOutputs id, y.1 ≠ id) (hhomed : s.Homed) : TellsDue due s s' id := by
  intro pre e post hs' hlength
  rw [hlog, List.append_assoc] at hs'
  obtain ⟨pre', rfl, hsplit⟩ := split_new hs' hlength
  rcases hnew with rfl | ⟨m, hdue, hodd, rfl⟩
  · -- Nothing is told: what is heard stays what is due.
    rw [List.nil_append] at hsplit
    rw [List.append_nil] at hheard
    refine ⟨fun _ hsome => ?_, fun m hm => ?_⟩
    · rw [heardMode_of_none, hheard hsome]
      intro e' he'
      exact hrest e' (by rw [hsplit]; exact List.mem_append_left _ he')
    · have hnone := hrest e (by rw [hsplit]; simp)
      rw [hnone] at hm
      cases hm
  · -- The mode comes first, and no other after it.
    have hlater : ∀ e' ∈ sizesTold (if rotated then (m.2.1.2, m.2.1.1) else m.2.1) (s.xdgOutputs id) ++
        (if done then [Entry.own id "done" []] else []) ++ rest, e'.mode id = none := by
      intro e' he'
      rcases List.mem_append.mp he' with he' | he'
      · rcases List.mem_append.mp he' with he' | he'
        · exact (sizesTold_mute hne _ he').1
        · split at he'
          · rw [List.mem_singleton.mp he']
            exact if_neg fun hboth => absurd hboth.2 (by decide)
          · cases he'
      · exact hrest e' he'
    unfold modeTold at hsplit
    rw [List.cons_append] at hsplit
    cases pre' with
    | nil =>
        obtain ⟨rfl, rfl⟩ := List.cons.inj hsplit
        refine ⟨fun hmode => absurd hmode.2 (by decide), fun m' hm' => ?_⟩
        rw [mode_own_mode hodd] at hm'
        obtain rfl := Option.some.inj (Option.some.inj hm')
        refine ⟨hdue, ⟨_, rfl⟩, ?_⟩
        have hsizes : ∀ y, s.MadeFor id y → ∃ args, Entry.own y "logical_size" args ∈
            sizesTold (if rotated then (m.2.1.2, m.2.1.1) else m.2.1) (s.xdgOutputs id) := by
          intro y hy
          obtain ⟨version, hmem⟩ := hhomed.mem_xdgOutputs hy
          exact ⟨_, List.mem_flatMap.mpr ⟨(y, version), hmem, List.mem_cons_self⟩⟩
        cases done with
        | true =>
            exact ⟨_, .own id "done" [], rest, by simp, ⟨rfl, rfl⟩,
              fun e' he' => (sizesTold_mute hne _ he').2, hsizes⟩
        | false =>
            obtain ⟨d, rest', hd, hisDone⟩ := hdone rfl
            exact ⟨_, d, rest', by simp [hd], hisDone, fun e' he' => (sizesTold_mute hne _ he').2, hsizes⟩
    | cons first pre'' =>
        obtain ⟨rfl, hafter⟩ := List.cons.inj hsplit
        change _ = pre'' ++ e :: post at hafter
        refine ⟨fun _ _ => ?_, fun m' hm' => ?_⟩
        · rw [List.append_cons, heardMode_of_none, heardMode_append, mode_own_mode hodd, hdue]
          · rfl
          · intro e' he'
            exact hlater e' (by rw [hafter]; exact List.mem_append_left _ he')
        · have hnone := hlater e (by rw [hafter]; simp)
          rw [hnone] at hm'
          cases hm'

/-- The bridge hears of the modes that are due. -/
structure StepTells (E : Setting F) (w : Nat → Said) (s s' : State F) : Prop where
  heeds : s'.Heeds w
  tells : ∀ id o x, s.obj id = some o → o.role = .output x → 2 ≤ o.version →
    TellsDue (modeDue E s.outputs x.global (w o.born)) s s' id

namespace State

variable {s s' t : State F} {w w' : Nat → Said}

/-! ## Section 7: Events -/

theorem Heeds.receive (h : s.Heeds w) (hkept : s.IdsKept) (desc : MessageDesc) (version : Nat)
    (alive : ObjectId → Bool) (args : List UpstreamArg) :
    Undisturbed w s (s.receive E desc version alive args).1 := by
  have hall : Undisturbed w s (s.receive E desc version alive args).1 ∧
      (s.receive E desc version alive args).1.IdsKept ∧
        ∀ id o, s.obj id = some o → (s.receive E desc version alive args).1.obj id = some o := by
    apply receive_induction (P := fun t => Undisturbed w s t ∧ t.IdsKept ∧
      ∀ id o, s.obj id = some o → t.obj id = some o)
    · rintro t iface up ⟨hu, hk, hobj⟩
      have hne : ∀ id o, s.obj id = some o → id ≠ t.nextServerId := by
        rintro id o ho rfl
        cases (hobj _ o ho).symm.trans (hk.unused _ le_rfl)
      refine ⟨⟨?_, ?_⟩, hk.create_compositor _ _ _ _, fun id o ho => ?_⟩
      · have hnext : Heeds { t with nextServerId := t.nextServerId + 1 } w :=
          hu.heeds.same rfl rfl fun _ _ => rfl
        refine hnext.create .compositor _ version _ fun x hx => ?_
        obtain ⟨hname, rfl⟩ := Role.forInterface_output hx
        exact ⟨hname, rfl⟩
      · refine hu.mutes.trans ⟨[.created .compositor t.nextServerId (.upstream up)], rfl, ?_⟩
        rintro e he id ⟨o, x, ho, _⟩
        rw [List.mem_singleton.mp he]
        exact Entry.mute_created (Ne.symm (hne id o ho)) _ _
      · rw [obj_create, if_neg (hne id o ho)]
        exact hobj id o ho
    · rintro t ⟨hu, hk, hobj⟩
      exact ⟨⟨hu.heeds.same rfl rfl fun _ _ => rfl, hu.mutes.trans (Mutes.same rfl)⟩, hk.failed, hobj⟩
    · exact ⟨h.undisturbed, hkept, fun _ _ ho => ho⟩
  exact hall.1

end State

namespace Undisturbed

variable {s t u : State F} {w : Nat → Said}

theorem focus (h : Undisturbed w s t) (bridge : Id) (iface event : String) (hidden : Bool)
    (args : List BridgeArg) : Undisturbed w s (t.focus bridge iface event hidden args).1 := by
  refine h.of_alters (State.still_focus _ _ _ _ _ _).toQuiet
    (State.alters_focus (N := fun _ => False) _ _ _ _ _ _) (by simp) ?_
  intro e he
  exact he.elim

theorem rescale (h : Undisturbed w s t) (affected : Id → Bool) :
    Undisturbed w s (t.rescale E affected) := by
  have halters : Alters [] (fun _ => False) t (t.rescale E affected) := State.alters_rescale _ _
  apply h.of_alters (State.still_rescale _ _).toQuiet halters List.not_mem_nil
  intro e he
  exact he.elim

/-- Bookkeeping for an event that says nothing of an output. -/
theorem beforeEvent (h : Undisturbed w s t) (bridge : Id) {iface event : String} (hidden : Bool)
    (args : List BridgeArg) (hmessage : (iface, event) ∉ outputMessages) :
    Undisturbed w s (t.beforeEvent E bridge iface event hidden args).1 := by
  by_cases hcreated : iface = "zwp_linux_buffer_params_v1" ∧ event = "created"
  · rw [hcreated.1, hcreated.2, State.beforeEvent_created]
    split
    · dsimp only
      apply Undisturbed.focus
      apply h.adjustRole
      intro r x hx
      cases hx
    · exact h
  · refine h.of_alters (State.still_beforeEvent _ _ _ _ hcreated).toQuiet
      (State.alters_beforeEvent _ _ _ _ hmessage hcreated) (by simp) ?_
    intro e he
    exact he.elim

theorem finished (h : Undisturbed w s t) {bridge : Id} (he : State.Ends bridge t u) (data : Table Id) :
    Undisturbed w s { u with data := data } := by
  apply Undisturbed.with_data
  cases he with
  | nothing hs =>
      rw [hs]
      exact h
  | gone _ hs =>
      rw [hs]
      exact h.destroy bridge

private theorem noteEvent (h : Undisturbed w s t) {e : Entry}
    (he : ∀ id, s.isOutput id ∨ t.isOutput id → e.mute id) : Undisturbed w s (t.note e) :=
  ⟨h.heeds.note fun id hid => (he id (.inr hid)).1, h.mutes.trans (Mutes.note t fun id hid => he id (.inl hid))⟩

theorem delivered {s' : State F} {bridge : Id} {iface : Interface} {desc : MessageDesc}
    {e : Event} {input : Incoming} {out : State F × List BridgeArg × Bool} (h : Undisturbed w s out.1)
    (hd : State.Delivered t s' bridge iface desc e input out)
    (hmute : out.2.2 = true → ∀ id, s.isOutput id ∨ out.1.isOutput id →
      (Entry.event bridge e.sender desc.name e.args out.2.1).mute id) : Undisturbed w s s' := by
  obtain ⟨data, u, hends, hs⟩ := hd.parts
  rw [hs]
  apply Undisturbed.finished _ hends
  split
  · rename_i hpasses
    exact h.noteEvent (hmute hpasses)
  · exact h

private theorem stepTells (h : Undisturbed w s t) : StepTells E w s t :=
  ⟨h.heeds, fun _ o x ho hx hversion => TellsDue.of_mutes h.mutes ⟨o, x, ho, hx, hversion⟩⟩

end Undisturbed

namespace State

variable {s s' t : State F} {w w' : Nat → Said}

/-- What an event says nothing of stays as it was said. -/
theorem Said.hear_other (said : Said) {iface event : String} (hmessage : (iface, event) ∉ outputMessages)
    (args : List UpstreamArg) : said.hear iface event args = said := by
  unfold Said.hear
  split
  case h_5 => rfl
  all_goals exact absurd (by decide) hmessage

private theorem hears_taken (w : Nat → Said) {e : Event} {bridge : Id} {o : Obj} {desc : MessageDesc}
    (ht : Taken s e bridge o desc) : hears s (.event e) w =
      match o.about with
      | some output => Function.update w output ((w output).hear o.iface.name desc.name e.args)
      | none => w := by
  unfold hears
  dsimp only
  rw [receiver_eq_some.mpr ht]

private theorem hears_same (w : Nat → Said) {e : Event} {bridge : Id} {o : Obj} {desc : MessageDesc}
    (ht : Taken s e bridge o desc)
    (hsame : ∀ said : Said, said.hear o.iface.name desc.name e.args = said) :
    hears s (.event e) w = w := by
  rw [hears_taken w ht]
  split
  · rw [hsame]
    exact Function.update_eq_self _ _
  · rfl

private theorem hears_none (w : Nat → Said) {e : Event} (hnone : ∀ bridge o desc, ¬Taken s e bridge o desc) :
    hears s (.event e) w = w := by
  unfold hears
  dsimp only
  split
  · rename_i hreceiver
    exact absurd (receiver_eq_some.mp hreceiver) (hnone _ _ _)
  · rfl

/-- An event whose arguments create nothing is delivered. -/
theorem event_delivered {e : Event} {bridge : Id} {o : Obj} {desc : MessageDesc} {input : Incoming}
    (ht : Taken s e bridge o desc)
    (hr : s.receive E desc o.version e.alive e.args = (s, some input)) :
    Delivered s (s.event E e) bridge o.iface desc e input
      (s.beforeEvent E bridge o.iface.name desc.name input.hidden input.args) := by
  have hsome : (s.obj bridge).isSome := by
    rw [ht.found]
    rfl
  rcases s.event_cases (E := E) e with ⟨hnone, _⟩ | ⟨bridge', o', desc', ht', hevent⟩
  · exact absurd ht (hnone _ _ _)
  obtain ⟨rfl, rfl, rfl⟩ := ht.unique ht'
  rw [hr] at hevent
  rcases hevent with ⟨hnone, _⟩ | ⟨input', hinput, hs⟩
  · cases hnone
  · obtain rfl := Option.some.inj hinput
    rw [hs]
    exact delivered_deliver hsome o.iface desc e input

/-- Events of outputs are recorded, and passed on, unless they tell a current mode. -/
theorem beforeEvent_output {bridge : Id} {iface event : String} {hidden : Bool} {args : List BridgeArg}
    (hmessage : (iface, event) ∈ outputMessages)
    (hmode : ¬(event = "mode" ∧ uint args 0 % 2 = 1)) :
    s.beforeEvent E bridge iface event hidden args =
      let adjusted := s.adjustEvent E bridge iface event args
      let out := adjusted.1.focus bridge iface event hidden adjusted.2
      (out.1, adjusted.2, out.2) := by
  have hregistry : iface ≠ "wl_registry" ∧ iface ≠ "zwp_linux_buffer_params_v1" := by
    constructor <;> rintro rfl <;> simp [outputMessages] at hmessage
  unfold State.beforeEvent
  rw [if_neg fun h => hregistry.1 h.1, if_neg fun h => hregistry.1 h.1,
    if_neg fun h => hmode ⟨h.2.1, h.2.2.2⟩, if_neg fun h => hregistry.2 h.1]

/-- What an event about an output changes of it, and of what was said. -/
theorem Heeds.hear (h : s.Heeds w) (hserials : s.Serials) {id : Id} {o : Obj} (ho : s.obj id = some o)
    {said : Said} {f : Output → Output}
    (hf : ∀ x, (w o.born).Agrees x → said.Agrees (f x) ∧ (f x).told = x.told)
    (hcurrent : ∀ m, said.mode = some m → m.1 % 2 = 1) :
    Undisturbed (Function.update w o.born said) s (s.adjustOutput id f) := by
  refine ⟨h.adjustOutput ho hserials (fun x hx => (hf x (h.said id o x ho hx)).1) hcurrent rfl rfl ?_
    fun _ _ _ => rfl, Mutes.same rfl⟩
  intro x hx hversion
  rw [(hf x (h.said id o x ho hx)).2]
  exact h.heard id o x ho hx hversion

private theorem about_self {o : Obj} (hiface : o.iface.name = "wl_output") : o.about = some o.born := by
  unfold Obj.about
  rw [hiface]
  exact if_neg (by decide)

theorem Heeds.delivered (h : s.Heeds w) {s' t : State F} {bridge : Id} {iface : Interface}
    {desc : MessageDesc} {e : Event} {input : Incoming} {passes : Bool} {args : List BridgeArg}
    (hd : Delivered t s' bridge iface desc e input (s, args, passes))
    (hmode : ∀ id, (Entry.event bridge e.sender desc.name e.args args).mode id = none) : s'.Heeds w := by
  obtain ⟨data, u, hends, rfl⟩ := hd.parts
  have hnoted : (if passes then s.note (.event bridge e.sender desc.name e.args args) else s).Heeds w := by
    split
    · exact h.note fun id _ => hmode id
    · exact h
  exact (hnoted.undisturbed.finished hends data).heeds

private theorem mute_of_ended {bridge : Id} {entry : Entry} (h : entry = .destroyed bridge ∨ entry = .deleteId bridge)
    (id : Id) : entry.mute id := by
  rcases h with rfl | rfl <;> exact ⟨rfl, fun hdone => hdone⟩

/-- The log after an event was delivered: the event, and the end of an object. -/
theorem Delivered.log {s' t : State F} {bridge : Id} {iface : Interface} {desc : MessageDesc} {e : Event}
    {input : Incoming} {out : State F × List BridgeArg × Bool}
    (hd : Delivered t s' bridge iface desc e input out) :
    ∃ ended, s'.log = out.1.log ++
      ((if out.2.2 then [.event bridge e.sender desc.name e.args out.2.1] else []) ++ ended) ∧
        ∀ entry ∈ ended, entry = .destroyed bridge ∨ entry = .deleteId bridge := by
  obtain ⟨data, u, hends, rfl⟩ := hd.parts
  have hnoted : (if out.2.2 then out.1.note (.event bridge e.sender desc.name e.args out.2.1) else out.1).log =
      out.1.log ++ (if out.2.2 then [.event bridge e.sender desc.name e.args out.2.1] else []) := by
    split
    · rfl
    · exact (List.append_nil _).symm
  cases hends with
  | nothing hs =>
      refine ⟨[], ?_, by simp⟩
      rw [List.append_nil, ← hnoted, hs]
  | gone _ hs =>
      rw [hs]
      unfold deleteId
      split
      · refine ⟨[.destroyed bridge, .deleteId bridge], ?_, by simp⟩
        show (_ ++ [_]) ++ [_] = _
        rw [hnoted]
        simp
      · refine ⟨[.destroyed bridge], ?_, by simp⟩
        show _ ++ [_] = _
        rw [hnoted]
        simp

/-- An event that an output's mode is told at. -/
theorem Heeds.stepTells (h : s.Heeds w) (hhomed : s.Homed) {output : Id} {o : Obj} {x : Output}
    (ho : s.obj output = some o) (hx : o.role = .output x) (done : Bool) {bridge : Id} {iface : Interface}
    {desc : MessageDesc} {e : Event} {input : Incoming} {told : State F} {args : List BridgeArg}
    {passes : Bool} (hd : Delivered s s' bridge iface desc e input (told, args, passes))
    (hname : desc.name = "done") (htold : told.Heeds w) (hlog : told.log = (s.tellMode E output done).log)
    (hbridge : ∀ id, s.isOutput id → id ≠ output → bridge ≠ id)
    (hdone : done = true ∧ bridge ≠ output ∨ done = false ∧ bridge = output ∧ passes = true) :
    StepTells E w s s' := by
  obtain ⟨_, new, htells, hnew, hheard⟩ := h.tells (E := E) hhomed.toSerials ho hx done
  obtain ⟨ended, hs', hended⟩ := hd.log
  dsimp only at hs'
  rw [hlog, htells] at hs'
  have hmode : ∀ args id, (Entry.event bridge e.sender desc.name e.args args).mode id = none := by
    intro args id
    rw [hname]
    exact if_neg fun hboth => absurd hboth.2 (by decide)
  refine ⟨htold.delivered hd (hmode args), ?_⟩
  intro id o' x' ho' hx' hversion
  have hrest : ∀ entry ∈ (if passes then [Entry.event bridge e.sender desc.name e.args args] else []) ++ ended,
      entry.mode id = none := by
    intro entry hentry
    rcases List.mem_append.mp hentry with hentry | hentry
    · split at hentry
      · rw [List.mem_singleton.mp hentry]
        exact hmode args id
      · cases hentry
    · exact (mute_of_ended (hended entry hentry) id).1
  by_cases hid : id = output
  · subst hid
    obtain rfl := Option.some.inj (ho.symm.trans ho')
    obtain rfl := Role.output.inj (hx.symm.trans hx')
    have hv : decide (done = true ∧ 2 ≤ o.version) = done := by simp [hversion]
    rw [hv] at hnew
    refine TellsDue.of_told hs' hnew ?_ hrest ?_ ?_ hhomed
    · intro hdue
      apply hheard _ hversion
      simpa [modeDue] using hdue
    · intro hfalse
      rcases hdone with ⟨htrue, _⟩ | ⟨_, rfl, rfl⟩
      · rw [htrue] at hfalse
        cases hfalse
      · exact ⟨_, ended, rfl, rfl, hname⟩
    · intro y hy
      exact not_mem_xdgOutputs ho hx hy
  · -- Of another output, nothing.
    have hother : s.isOutput id := ⟨o', x', ho', hx', hversion⟩
    suffices hmutes : Mutes (fun j => j = id) s s' from TellsDue.of_mutes hmutes rfl
    refine ⟨new ++ ((if passes then [Entry.event bridge e.sender desc.name e.args args] else []) ++ ended), ?_, ?_⟩
    · rw [hs', List.append_assoc]
    · rintro entry hentry j rfl
      rcases List.mem_append.mp hentry with hentry | hentry
      · rcases hnew with rfl | ⟨m, _, _, rfl⟩
        · cases hentry
        · exact modeTold_mute (Ne.symm hid) (fun y hy => not_mem_xdgOutputs ho' hx' hy) _ _ _ hentry
      · rcases List.mem_append.mp hentry with hentry | hentry
        · split at hentry
          · rw [List.mem_singleton.mp hentry]
            exact (Entry.mute_of_ne (hbridge j hother hid) _).2 _ _ _
          · cases hentry
        · exact mute_of_ended (hended entry hentry) j

/-- An event of an output that is passed on, and tells nothing of a mode. -/
theorem event_passed {e : Event} {bridge : Id} {o : Obj} {desc : MessageDesc} {input : Incoming}
    (ht : Taken s e bridge o desc) (hr : s.receive E desc o.version e.alive e.args = (s, some input))
    (hmessage : (o.iface.name, desc.name) ∈ outputMessages)
    (hmode : ¬(desc.name = "mode" ∧ uint input.args 0 % 2 = 1))
    (h : Undisturbed w s (s.adjustEvent E bridge o.iface.name desc.name input.args).1)
    (hmute : ∀ id, (Entry.event bridge e.sender desc.name e.args
      (s.adjustEvent E bridge o.iface.name desc.name input.args).2).mute id) :
    Undisturbed w s (s.event E e) := by
  have hd := event_delivered ht hr
  rw [beforeEvent_output hmessage hmode] at hd
  dsimp only at hd
  refine Undisturbed.delivered ?_ hd fun _ id _ => hmute id
  exact h.focus _ _ _ _ _

/-- What is an output was one. -/
theorem isOutput_of_alters {s t : State F} (hq : Quiet s t) {tags : List Tag} {N : Entry → Prop}
    (ha : Alters tags N s t) {id : Id} (hid : t.isOutput id) : s.isOutput id := by
  obtain ⟨o', x', ho', hx', hversion⟩ := hid
  have htag := ha.tag id
  rw [role_eq_some.mpr ⟨o', ho', hx'⟩] at htag
  obtain ⟨r, hr, htag⟩ := Option.map_eq_some_iff.mp htag.symm
  obtain ⟨o, ho, rfl⟩ := role_eq_some.mp hr
  have hcore := hq.core id
  rw [ho, ho'] at hcore
  obtain ⟨_, hv, _⟩ : o'.iface = o.iface ∧ o'.version = o.version ∧ o'.kind = o.kind ∧
      o'.born = o.born := by simpa [Obj.core] using hcore
  cases hrole : o.role with
  | output x => exact ⟨o, x, ho, hrole, hv ▸ hversion⟩
  | _ =>
      rw [hrole] at htag
      cases htag

private theorem isOutput_focus {bridge : Id} {iface event : String} {hidden : Bool} {args : List BridgeArg} {id : Id}
    (hid : (s.focus bridge iface event hidden args).1.isOutput id) : s.isOutput id :=
  isOutput_of_alters (still_focus _ _ _ _ _ _).toQuiet
    (alters_focus (N := fun _ => False) _ _ _ _ _ _) hid

private theorem isOutput_adjustOutput {id j : Id} {f : Output → Output} (hid : (s.adjustOutput j f).isOutput id) :
    s.isOutput id :=
  isOutput_of_alters (still_adjustOutput _ _ _).toQuiet
    (alters_adjustOutput (N := fun _ => False) _ _ _) hid

/-- What is no output has no mode to tell. -/
theorem tellMode_of_role {id : Id} (hrole : ∀ x, s.role id ≠ some (.output x)) (done : Bool) :
    s.tellMode E id done = s := by
  unfold State.tellMode
  split
  · rename_i x _ hx
    exact absurd hx (hrole x)
  · rfl

/-! ## Section 8: What Each Event Says -/

private theorem hears_own {e : Event} {bridge : Id} {o : Obj} {desc : MessageDesc}
    (ht : Taken s e bridge o desc) (hiface : o.iface.name = "wl_output") :
    hears s (.event e) w =
      Function.update w o.born ((w o.born).hear "wl_output" desc.name e.args) := by
  rw [hears_taken w ht, about_self hiface, hiface]

/-- An output's transform. -/
theorem Heeds.event_geometry (h : s.Heeds w) (hserials : s.Serials) {e : Event} {bridge : Id} {o : Obj}
    {desc : MessageDesc} (ht : Taken s e bridge o desc) (hiface : o.iface.name = "wl_output")
    (hname : desc.name = "geometry") (hargs : (transformArg e.args).isSome) :
    Undisturbed (hears s (.event e) w) s (s.event E e) := by
  obtain ⟨transform, htransform⟩ := Option.isSome_iff_exists.mp hargs
  have hhears : hears s (.event e) w = Function.update w o.born
      { w o.born with rotated := [1, 3, 5, 7].contains transform } := by
    rw [hears_own ht hiface, hname]
    show Function.update w o.born (match transformArg e.args with
      | some t => { w o.born with rotated := [1, 3, 5, 7].contains t }
      | none => w o.born) = _
    rw [htransform]
  unfold transformArg at htransform
  split at htransform
  · rename_i x y width height subpixel make model transform' hshape
    obtain rfl := Option.some.inj htransform
    have hr : s.receive E desc o.version e.alive e.args = (s, some { args := [.int x, .int y, .int width,
        .int height, .int subpixel, .str make, .str model, .int transform'] }) := by
      rw [hshape]
      rfl
    refine event_passed ht hr ?_ ?_ ?_ ?_
    · rw [hiface, hname]
      decide
    · rw [hname]
      exact fun hmode => absurd hmode.1 (by decide)
    · rw [hhears, hiface, hname]
      refine h.hear hserials ht.found (fun x hx => ?_) (h.current _)
      exact ⟨⟨hx.mode, hx.logical, rfl, hx.scale⟩, rfl⟩
    · intro id
      rw [hname]
      exact (Entry.mute_of_name (by decide) (by decide)).2 _ _ _
  · cases htransform

/-- An output's scale. -/
theorem Heeds.event_scale (h : s.Heeds w) (hserials : s.Serials) {e : Event} {bridge : Id} {o : Obj}
    {desc : MessageDesc} (ht : Taken s e bridge o desc) (hiface : o.iface.name = "wl_output")
    (hname : desc.name = "scale") (hargs : (scaleArg e.args).isSome) :
    Undisturbed (hears s (.event e) w) s (s.event E e) := by
  obtain ⟨factor, hfactor⟩ := Option.isSome_iff_exists.mp hargs
  have hhears : hears s (.event e) w = Function.update w o.born
      { w o.born with scale := some factor } := by
    rw [hears_own ht hiface, hname]
    show Function.update w o.born (match scaleArg e.args with
      | some factor => { w o.born with scale := some factor }
      | none => w o.born) = _
    rw [hfactor]
  unfold scaleArg at hfactor
  split at hfactor
  · rename_i factor' hshape
    obtain rfl := Option.some.inj hfactor
    have hr : s.receive E desc o.version e.alive e.args = (s, some { args := [.int factor'] }) := by
      rw [hshape]
      rfl
    refine event_passed ht hr ?_ ?_ ?_ ?_
    · rw [hiface, hname]
      decide
    · rw [hname]
      exact fun hmode => absurd hmode.1 (by decide)
    · rw [hhears, hiface, hname]
      refine Undisturbed.rescale (t := s.adjustOutput bridge fun o =>
        { o with scale := some (max factor' 1) }) ?_ _
      refine h.hear hserials ht.found (fun x hx => ?_) (h.current _)
      exact ⟨⟨hx.mode, hx.logical, hx.rotated, rfl⟩, rfl⟩
    · intro id
      rw [hname]
      exact (Entry.mute_of_name (by decide) (by decide)).2 _ _ _
  · cases hfactor

/-- An output's mode. The current one is kept back from version 2 on; below, it goes out at once. -/
theorem Heeds.event_mode (h : s.Heeds w) (hserials : s.Serials) (hscale : E.scale ≠ .native) {e : Event}
    {bridge : Id} {o : Obj} {desc : MessageDesc} (ht : Taken s e bridge o desc)
    (hiface : o.iface.name = "wl_output") (hname : desc.name = "mode") (hargs : (modeArgs e.args).isSome) :
    Undisturbed (hears s (.event e) w) s (s.event E e) := by
  obtain ⟨m, hm⟩ := Option.isSome_iff_exists.mp hargs
  have hhears : hears s (.event e) w = Function.update w o.born
      (if m.1 % 2 = 1 then { w o.born with mode := some m } else w o.born) := by
    rw [hears_own ht hiface, hname]
    show Function.update w o.born (match modeArgs e.args with
      | some m => if m.1 % 2 = 1 then { w o.born with mode := some m } else w o.born
      | none => w o.born) = _
    rw [hm]
  unfold modeArgs at hm
  split at hm
  · rename_i flags width height refresh hshape
    obtain rfl := Option.some.inj hm
    have hr : s.receive E desc o.version e.alive e.args =
        (s, some { args := [.uint flags, .int width, .int height, .int refresh] }) := by
      rw [hshape]
      rfl
    rw [hhears]
    dsimp only
    -- Only the current mode counts.
    by_cases hcurrent : flags % 2 = 1
    · rw [if_pos hcurrent]
      have hd := event_delivered ht hr
      rw [hiface, hname] at hd
      have hadjusted : Undisturbed (Function.update w o.born
          { w o.born with mode := some (flags, (width, height), refresh) }) s
          (s.adjustOutput bridge fun o => { o with mode := some (flags, (width, height), refresh) }) := by
        refine h.hear hserials ht.found (fun x hx => ?_) fun m hm => ?_
        · exact ⟨⟨rfl, hx.logical, hx.rotated, hx.scale⟩, rfl⟩
        · obtain rfl := Option.some.inj hm
          exact hcurrent
      have hversion : ((s.obj bridge).map Obj.version).getD 1 = o.version := by
        rw [ht.found]
        rfl
      unfold State.beforeEvent at hd
      rw [if_neg (by decide), if_neg (by decide), if_pos ⟨rfl, rfl, hscale, hcurrent⟩] at hd
      dsimp only at hd
      rw [hversion] at hd
      split at hd
      · exact hadjusted.delivered hd nofun
      · -- No output of version 2 or later.
        rename_i hold
        refine Undisturbed.delivered ?_ hd ?_
        · exact hadjusted.focus _ _ _ _ _
        · rintro _ id hid
          apply (Entry.mute_of_ne _ _).2
          rintro rfl
          obtain ⟨o', x, ho', _, hv⟩ : s.isOutput bridge := by
            rcases hid with hid | hid
            · exact hid
            · exact isOutput_adjustOutput (isOutput_focus hid)
          obtain rfl := Option.some.inj (ht.found.symm.trans ho')
          exact hold hv
    -- Another mode goes by.
    · rw [if_neg hcurrent, Function.update_eq_self]
      refine event_passed ht hr ?_ ?_ ?_ ?_
      · rw [hiface, hname]
        decide
      · exact fun hmode => hcurrent hmode.2
      · rw [hiface, hname]
        exact h.undisturbed
      · intro id
        rw [hiface, hname]
        refine ⟨?_, fun hdone => absurd hdone.2 (by decide)⟩
        show (if bridge = id ∧ "mode" = "mode" then (if flags % 2 = 1 then _ else none : Option Mode).map some
          else none) = none
        rw [if_neg hcurrent]
        split <;> rfl
  · cases hm

/-- What is said of an output that is gone makes no difference. -/
theorem Heeds.hear_gone (h : s.Heeds w) {b : Nat} (hb : b < s.births) (hgone : ∀ id o, s.obj id = some o → o.born ≠ b)
    {said : Said} (hcurrent : ∀ m, said.mode = some m → m.1 % 2 = 1) : s.Heeds (Function.update w b said) := by
  refine ⟨h.iface, fun id o x ho hx => ?_, h.heard, fun b' hb' => ?_, fun b' m hm => ?_⟩
  · rw [Function.update_of_ne (hgone id o ho)]
    exact h.said id o x ho hx
  · rw [Function.update_of_ne (by omega)]
    exact h.fresh b' hb'
  · by_cases hsame : b' = b
    · rw [hsame, Function.update_self] at hm
      exact hcurrent m hm
    · rw [Function.update_of_ne hsame] at hm
      exact h.current b' m hm

/-- The logical size that a `zxdg_output_v1` says, if it knows its output. -/
theorem Heeds.event_logicalSize (h : s.Heeds w) (hhomed : s.Homed) {e : Event} {bridge : Id} {o : Obj}
    {desc : MessageDesc} (ht : Taken s e bridge o desc) (hiface : o.iface.name = "zxdg_output_v1")
    (hname : desc.name = "logical_size") (hargs : (sizeArgs e.args).isSome) (hknows : KnowsOutput s (.event e)) :
    Undisturbed (hears s (.event e) w) s (s.event E e) := by
  obtain ⟨size, hsize⟩ := Option.isSome_iff_exists.mp hargs
  have hhears : hears s (.event e) w = match o.about with
      | some output => Function.update w output { w output with logical := some size }
      | none => w := by
    rw [hears_taken w ht, hiface, hname]
    split
    · show Function.update w _ (match sizeArgs e.args with
        | some size => { w _ with logical := some size }
        | none => w _) = _
      rw [hsize]
    · rfl
  unfold sizeArgs at hsize
  split at hsize
  · rename_i width height hshape
    obtain rfl := Option.some.inj hsize
    have hr : s.receive E desc o.version e.alive e.args = (s, some { args := [.int width, .int height] }) := by
      rw [hshape]
      rfl
    refine event_passed ht hr ?_ ?_ ?_ ?_
    · rw [hiface, hname]
      decide
    · rw [hname]
      exact fun hmode => absurd hmode.1 (by decide)
    · rw [hhears, hiface, hname, adjustEvent_logicalSize]
      unfold onOutput State.outputOf Obj.about
      rw [if_pos hiface, role_eq_some.mpr ⟨o, ht.found, rfl⟩]
      have hown := hknows _ (receiver_eq_some.mpr ht) hiface hname
      dsimp only at hown
      cases hrole : o.role with
      | xdgOutput output =>
          rw [hrole] at hown
          dsimp only at hown ⊢
          have hrecords : s.Records bridge .object output :=
            .inl ⟨o, ht.found, .inl (by simp [hrole, Role.refs])⟩
          cases hobj : s.obj output.id with
          | none =>
              -- The output is gone.
              have hsame : ∀ j o', (s.adjustOutput output.id fun x =>
                  { x with logical := some (int [.int width, .int height] 0, int [.int width, .int height] 1) }).obj j =
                    some o' → s.obj j = some o' := by
                intro j o' ho'
                dsimp only [State.adjustOutput] at ho'
                rw [obj_adjustRole] at ho'
                split at ho'
                · rename_i hj
                  rw [hj, hobj] at ho'
                  cases ho'
                · exact ho'
              refine ⟨Heeds.of_same (s := s) ?_ le_rfl (fun j o' x ho' hx => ⟨o', hsame j o' ho', rfl, hx⟩)
                fun _ _ => rfl, Mutes.same rfl⟩
              cases hborn : output.born with
              | none => exact h
              | some b =>
                  obtain ⟨hb, honly⟩ := hhomed.home bridge .object output b hrecords hborn
                  refine h.hear_gone hb (fun id o' ho' hsame => ?_) (h.current b)
                  rw [honly id o' ho' hsame, hobj] at ho'
                  cases ho'
          | some target =>
              rw [hown target hobj]
              refine h.hear hhomed.toSerials hobj (fun x hx => ?_) (h.current _)
              exact ⟨⟨hx.mode, rfl, hx.rotated, hx.scale⟩, rfl⟩
      | _ => exact h.undisturbed
    · intro id
      rw [hname]
      exact (Entry.mute_of_name (by decide) (by decide)).2 _ _ _
  · cases hsize

/-- An output's `done`: the mode due is told before it. -/
theorem Heeds.event_done (h : s.Heeds w) (hhomed : s.Homed) (hscale : E.scale ≠ .native) {e : Event}
    {bridge : Id} {o : Obj} {desc : MessageDesc} (ht : Taken s e bridge o desc)
    (hiface : o.iface.name = "wl_output") (hname : desc.name = "done") (hargs : e.args = []) :
    StepTells E (hears s (.event e) w) s (s.event E e) := by
  have hhears : hears s (.event e) w = w := by
    apply hears_same w ht
    intro said
    rw [hiface, hname]
    rfl
  have hr : s.receive E desc o.version e.alive e.args = (s, some {}) := by
    rw [hargs]
    rfl
  have hadjust : s.adjustEvent E bridge "wl_output" "done" [] = (s.tellMode E bridge false, []) := by
    show ((if E.scale ≠ .native then s.tellMode E bridge false else s), _) = _
    rw [if_pos hscale]
  have hmessage : (o.iface.name, desc.name) ∈ outputMessages := by
    rw [hiface, hname]
    decide
  have hd := event_delivered ht hr
  rw [beforeEvent_output hmessage (fun hmode => absurd (hname.symm.trans hmode.1) (by decide)), hiface,
    hname] at hd
  dsimp only at hd
  rw [hhears]
  by_cases houtput : ∃ x, o.role = .output x
  · obtain ⟨x, hx⟩ := houtput
    rw [hadjust] at hd
    -- An output has no focus.
    have hfocus : (s.tellMode E bridge false).focus bridge "wl_output" "done" false [] =
        (s.tellMode E bridge false, true) := by
      have htag := (s.alters_tellMode (E := E) bridge false).tag bridge
      rw [role_eq_some.mpr ⟨o, ht.found, hx⟩] at htag
      obtain ⟨r, hr, htag⟩ := Option.map_eq_some_iff.mp htag
      unfold State.focus
      rw [hr]
      cases r <;> first | rfl | cases htag
    rw [hfocus] at hd
    refine h.stepTells hhomed ht.found hx false hd hname (h.tells hhomed.toSerials ht.found hx false).1 rfl ?_
      (.inr ⟨rfl, rfl, rfl⟩)
    intro id _ hid
    exact Ne.symm hid
  · -- What is no output has no mode.
    apply Undisturbed.stepTells
    have hrole : ∀ x, s.role bridge ≠ some (.output x) := by
      intro x hrole
      obtain ⟨o', ho', hx⟩ := role_eq_some.mp hrole
      obtain rfl := Option.some.inj (ht.found.symm.trans ho')
      exact houtput ⟨x, hx⟩
    rw [tellMode_of_role hrole] at hadjust
    rw [hadjust] at hd
    refine (h.undisturbed.focus _ _ _ _ _).delivered hd fun _ id hid => ?_
    apply (Entry.mute_of_ne _ _).2
    rintro rfl
    obtain ⟨o', x, ho', hx, _⟩ : s.isOutput bridge := by
      rcases hid with hid | hid
      · exact hid
      · exact isOutput_focus hid
    exact hrole x (role_eq_some.mpr ⟨o', ho', hx⟩)

/-- The `done` of a `zxdg_output_v1`: the mode due to its output is told before it. -/
theorem Heeds.event_xdgDone (h : s.Heeds w) (hhomed : s.Homed) (hscale : E.scale ≠ .native) {e : Event}
    {bridge : Id} {o : Obj} {desc : MessageDesc} (ht : Taken s e bridge o desc)
    (hiface : o.iface.name = "zxdg_output_v1") (hname : desc.name = "done") (hargs : e.args = []) :
    StepTells E (hears s (.event e) w) s (s.event E e) := by
  have hhears : hears s (.event e) w = w := by
    apply hears_same w ht
    intro said
    rw [hiface, hname]
    rfl
  have hr : s.receive E desc o.version e.alive e.args = (s, some {}) := by
    rw [hargs]
    rfl
  have hmessage : (o.iface.name, desc.name) ∈ outputMessages := by
    rw [hiface, hname]
    decide
  have hadjust : s.adjustEvent E bridge "zxdg_output_v1" "done" [] =
      (s.onOutput bridge fun output => s.tellMode E output true, []) := by
    rw [adjustEvent_done]
    simp only [if_pos hscale]
  have hd := event_delivered ht hr
  rw [beforeEvent_output hmessage (fun hmode => absurd (hname.symm.trans hmode.1) (by decide)), hiface,
    hname] at hd
  dsimp only at hd
  rw [hadjust] at hd
  unfold onOutput at hd
  rw [hhears]
  -- It is no output itself.
  have hbridge : ∀ id o' x, s.obj id = some o' → o'.role = .output x → bridge ≠ id := by
    rintro id o' x ho' hx rfl
    obtain rfl := Option.some.inj (ht.found.symm.trans ho')
    have hother := h.iface bridge o x ho' hx
    rw [hiface] at hother
    exact absurd hother (by decide)
  have hnothing : ∀ {args : List BridgeArg}, Delivered s (s.event E e) bridge o.iface desc e {}
      ((s.focus bridge "zxdg_output_v1" "done" false args).1, args,
        (s.focus bridge "zxdg_output_v1" "done" false args).2) → StepTells E w s (s.event E e) := by
    intro args hd
    refine ((h.undisturbed.focus _ _ _ _ _).delivered hd fun _ id hid => ?_).stepTells
    obtain ⟨o', x, ho', hx, _⟩ : s.isOutput id := by
      rcases hid with hid | hid
      · exact hid
      · exact isOutput_focus hid
    exact (Entry.mute_of_ne (hbridge id o' x ho' hx) _).2 _ _ _
  cases houtput : s.outputOf bridge with
  | none =>
      rw [houtput] at hd
      exact hnothing hd
  | some output =>
    rw [houtput] at hd
    dsimp only at hd
    -- The output that the xdg-output is for may be gone, and its id another's.
    by_cases hrole : ∃ x, s.role output = some (.output x)
    · obtain ⟨x, hrole⟩ := hrole
      obtain ⟨target, htarget, hx⟩ := role_eq_some.mp hrole
      obtain ⟨htold, hlog, _⟩ := h.tells (E := E) hhomed.toSerials htarget hx true
      refine h.stepTells hhomed htarget hx true hd hname (htold.undisturbed.focus _ _ _ _ _).heeds
        (alters_focus _ _ _ _ _ _ (N := fun _ => False)).log_eq ?_
        (.inl ⟨rfl, hbridge output target x htarget hx⟩)
      rintro id ⟨o', x', ho', hx', _⟩ _
      exact hbridge id o' x' ho' hx'
    · rw [tellMode_of_role fun x hx => hrole ⟨x, hx⟩] at hd
      exact hnothing hd

/-- Any other event, whatever it makes. -/
theorem Heeds.event_other (h : s.Heeds w) (hkept : s.IdsKept) {e : Event} {bridge : Id} {o : Obj}
    {desc : MessageDesc} (ht : Taken s e bridge o desc)
    (hmessage : (o.iface.name, desc.name) ∉ outputMessages) :
    Undisturbed (hears s (.event e) w) s (s.event E e) := by
  rw [hears_same w ht fun said => Said.hear_other said hmessage e.args]
  have hreceived := h.receive (E := E) hkept desc o.version e.alive e.args
  have hsame : (s.receive E desc o.version e.alive e.args).1.obj bridge = some o :=
    (hkept.receive desc o.version e.alive e.args).2 bridge o ht.found
  rcases s.event_cases (E := E) e with ⟨hnone, _⟩ | ⟨bridge', o', desc', ht', hevent⟩
  · exact absurd ht (hnone _ _ _)
  obtain ⟨rfl, rfl, rfl⟩ := ht.unique ht'
  rcases hevent with ⟨_, hs⟩ | ⟨input, _, hs⟩
  · rw [hs]
    exact hreceived
  · rw [hs]
    have hsome : ((s.receive E desc o.version e.alive e.args).1.obj bridge).isSome := by
      rw [hsame]
      rfl
    have hd := delivered_deliver (E := E) hsome o.iface desc e input
    have hbefore := hreceived.beforeEvent (E := E) bridge input.hidden input.args hmessage
    refine hbefore.delivered hd fun _ id hid => ?_
    -- If it is an output's, it is neither a mode nor a `done`.
    by_cases hbridge : bridge = id
    · have hiface : o.iface.name = "wl_output" := by
        subst hbridge
        rcases hid with ⟨o', x, ho', hx, _⟩ | ⟨o', x, ho', hx, _⟩
        · obtain rfl := Option.some.inj (ht.found.symm.trans ho')
          exact h.iface bridge o x ho' hx
        · have hcore := hd.quiet.core bridge
          rw [ho', hsame] at hcore
          obtain ⟨hi, _⟩ : o'.iface = o.iface ∧ o'.version = o.version ∧ o'.kind = o.kind ∧
              o'.born = o.born := by simpa [Obj.core] using hcore
          rw [← hi]
          exact hbefore.heeds.iface bridge o' x ho' hx
      rw [hiface] at hmessage
      refine (Entry.mute_of_name ?_ ?_).2 _ _ _
      all_goals
        intro hname
        rw [hname] at hmessage
        exact hmessage (by decide)
    · exact (Entry.mute_of_ne hbridge _).2 _ _ _

theorem Heeds.event (h : s.Heeds w) (hhomed : s.Homed) (hkept : s.IdsKept) (hscale : E.scale ≠ .native)
    {e : Event} (hformed : WellFormed s (.event e)) (hknows : KnowsOutput s (.event e)) :
    StepTells E (hears s (.event e) w) s (s.event E e) := by
  rcases s.event_cases (E := E) e with ⟨hnone, hs⟩ | ⟨bridge, o, desc, ht, _⟩
  · rw [hears_none w hnone, hs]
    exact h.undisturbed.stepTells
  by_cases hmessage : (o.iface.name, desc.name) ∈ outputMessages
  · have hargs := hformed _ (receiver_eq_some.mpr ht)
    dsimp only at hargs
    simp only [outputMessages, List.mem_cons, Prod.mk.injEq, List.not_mem_nil, or_false] at hmessage
    rcases hmessage with ⟨hi, hn⟩ | ⟨hi, hn⟩ | ⟨hi, hn⟩ | ⟨hi, hn⟩ | ⟨hi, hn⟩ | ⟨hi, hn⟩
    all_goals rw [hi, hn] at hargs
    · exact (h.event_geometry hhomed.toSerials ht hi hn hargs).stepTells
    · exact (h.event_mode hhomed.toSerials hscale ht hi hn hargs).stepTells
    · exact (h.event_scale hhomed.toSerials ht hi hn hargs).stepTells
    · exact h.event_done hhomed hscale ht hi hn hargs
    · exact (h.event_logicalSize hhomed ht hi hn hargs hknows).stepTells
    · exact h.event_xdgDone hhomed hscale ht hi hn hargs
  · exact (h.event_other hkept ht hmessage).stepTells

theorem Heeds.step (h : s.Heeds w) (hhomed : s.Homed) (hkept : s.IdsKept) (hscale : E.scale ≠ .native)
    {a : Action} (hformed : WellFormed s a) (hknows : KnowsOutput s a) (hs : step E s a = some s') :
    StepTells E (hears s a w) s s' := by
  cases a with
  | request m answer =>
      exact (h.request (toOption_eq_some.mp hs)).stepTells
  | event e =>
      cases hs
      exact h.event hhomed hkept hscale hformed hknows
  | setOutput global geometry =>
      cases hs
      apply Undisturbed.stepTells
      cases geometry with
      | none | some g => exact ⟨h.same rfl rfl fun _ _ => rfl, Mutes.same rfl⟩
  | close toplevel =>
      cases hs
      refine (h.undisturbed.of_alters (s.still_close toplevel).toQuiet (s.alters_close toplevel)
        List.not_mem_nil fun entry he id => ?_).stepTells
      cases entry with
      | own j name args =>
          obtain rfl : name = "close" := by simpa [Entry.tells] using he
          exact (Entry.mute_of_name (by decide) (by decide)).1 args
      | _ => cases he

private theorem heeds_initial (F : Type) (E : Setting F) : (State.initial F E).Heeds fun _ => {} := by
  have hnone : ∀ id o x, (State.initial F E).obj id = some o → o.role ≠ .output x := by
    intro id o x ho
    rw [obj_initial] at ho
    split at ho
    · rw [← Option.some.inj ho]
      nofun
    · cases ho
  exact ⟨fun id o x ho hx => absurd hx (hnone id o x ho), fun id o x ho hx => absurd hx (hnone id o x ho),
    fun id o x ho hx => absurd hx (hnone id o x ho), fun _ _ => rfl, nofun⟩

end State

/-- In a run, the invariant is kept. -/
theorem heeds_of_run {E : Setting F} (hscale : E.scale ≠ .native) {x : State F × (Nat → Said)}
    {as : List Action}
    (hmeets : StepsMeet (watched (step E) hears) (fun x a => WellFormed x.1 a ∧ KnowsOutput x.1 a)
      (State.initial F E, fun _ => {}) as)
    (hrun : run (watched (step E) hears) (State.initial F E, fun _ => {}) as = some x) :
    x.1.Heeds x.2 ∧ x.1.Homed ∧ x.1.IdsKept := by
  apply run_invariant_of_meets (I := fun x => x.1.Heeds x.2 ∧ x.1.Homed ∧ x.1.IdsKept) _ _ hmeets hrun
  · rintro ⟨s, w⟩ a ⟨s', w'⟩ ⟨hheeds, hhomed, hkept⟩ ⟨hformed, hknows⟩ hstep
    obtain ⟨hs, rfl⟩ := watched_eq_some.mp hstep
    exact ⟨(hheeds.step hhomed hkept hscale hformed hknows hs).heeds, hhomed.step hkept hs, hkept.step hs⟩
  · exact ⟨State.heeds_initial F E, State.homed_initial F E, State.idsKept_initial F E⟩

/-- Under a scale, whatever the order of events and of what the proxy's own connection learns, but that no
`zxdg_output_v1` says a size once the id of its output is another object's: at a `done` of an output the
bridge has heard the mode that is due, each current mode it hears is the one due, and before the `done` after
it each `zxdg_output_v1` of the output was told a size. -/
theorem current_modes_told (E : Setting F) (hscale : E.scale ≠ .native) {x : State F × (Nat → Said)}
    {as : List Action} {a : Action} {s' : State F} {id : Id} {o : Obj} {y : Output}
    (hmeets : StepsMeet (watched (step E) hears) (fun x a => WellFormed x.1 a ∧ KnowsOutput x.1 a)
      (State.initial F E, fun _ => {}) as)
    (hrun : run (watched (step E) hears) (State.initial F E, fun _ => {}) as = some x)
    (hformed : WellFormed x.1 a ∧ KnowsOutput x.1 a) (hstep : step E x.1 a = some s') (ho : x.1.obj id = some o)
    (hy : o.role = .output y) (hversion : 2 ≤ o.version) :
    TellsDue (modeDue E x.1.outputs y.global (hears x.1 a x.2 o.born)) x.1 s' id := by
  obtain ⟨hheeds, hhomed, hkept⟩ := heeds_of_run hscale hmeets hrun
  exact (hheeds.step hhomed hkept hscale hformed.1 hformed.2 hstep).tells id o y ho hy hversion

/-- An output, with its `zxdg_output_v1`. -/
def outputTable (name : String) : Interface :=
  { name := name
    version := 4
    requests := match name with
      | "wl_display" => [{ name := "sync", signature := [.newId], childInterface := some "wl_callback" },
          { name := "get_registry", signature := [.newId], childInterface := some "wl_registry" }]
      | "wl_registry" => [{ name := "bind", signature := [.uint, .str false, .uint, .newId] }]
      | "wl_output" => [{ name := "release", isDestructor := true }]
      | "zxdg_output_manager_v1" => [{ name := "destroy", isDestructor := true },
          { name := "get_xdg_output", signature := [.newId, .object false],
            argInterfaces := ["wl_output"], childInterface := some "zxdg_output_v1" }]
      | _ => []
    events := match name with
      | "wl_registry" => [{ name := "global", signature := [.uint, .str false, .uint] }]
      | "wl_output" => [{ name := "mode", signature := [.uint, .int, .int, .int] },
          { name := "scale", signature := [.int] }, { name := "done" }]
      | "zxdg_output_v1" => [{ name := "logical_size", signature := [.int, .int] }, { name := "done" }]
      | _ => [] }

/-- Scales are rounded up. -/
def outputSetting : Setting Unit :=
  { Setting.bare outputTable with scale := .roundUp, wholeRatio := fun mode logical => (mode + logical - 1) / logical }

/-- An output's mode, logical size and scale, before its `done`. -/
def outputSaid : List Action :=
  [.request ⟨displayId, 1, [.newId 2]⟩ ⟨some 10, true⟩,
    .event { sender := 10, opcode := 0, args := [.uint 1, .str (some "wl_output"), .uint 4] },
    .event { sender := 10, opcode := 0, args := [.uint 2, .str (some "zxdg_output_manager_v1"), .uint 3] },
    .request ⟨2, 0, [.uint 1, .str (some "wl_output"), .uint 4, .newId 3]⟩ ⟨some 11, true⟩,
    .request ⟨2, 0, [.uint 2, .str (some "zxdg_output_manager_v1"), .uint 3, .newId 4]⟩ ⟨some 12, true⟩,
    .request ⟨4, 1, [.newId 5, .object 3]⟩ ⟨some 13, true⟩,
    .event { sender := 11, opcode := 0, args := [.uint 1, .int 3840, .int 2160, .int 60000] },
    .event { sender := 11, opcode := 1, args := [.int 2] },
    .event { sender := 13, opcode := 0, args := [.int 2560, .int 1440] }]

def outputDone : Action :=
  .event { sender := 11, opcode := 2, args := [] }

def Role.asOutput : Role → Option Output
  | .output y => some y
  | _ => Option.none

private theorem asOutput_eq_some {r : Role} {y : Output} : r.asOutput = some y ↔ r = .output y := by
  cases r <;> simp [Role.asOutput]

/-- The output's mode is 1.5 times its logical size, and goes out as twice that. -/
theorem current_modes_told_example :
    ∃ x s', run (watched (step outputSetting) hears) (State.initial Unit outputSetting, fun _ => {})
        outputSaid = some x ∧
      step outputSetting x.1 outputDone = some s' ∧
      TellsDue (some (1, (5120, 2880), 60000)) x.1 s' 3 := by
  have hsome : ((run (watched (step outputSetting) hears) (State.initial Unit outputSetting, fun _ => {})
      outputSaid).any fun x => (x.1.obj 3).any fun o => o.role.asOutput.any fun y =>
        decide (2 ≤ o.version ∧ (WellFormed x.1 outputDone ∧ KnowsOutput x.1 outputDone) ∧
          modeDue outputSetting x.1.outputs y.global (hears x.1 outputDone x.2 o.born) =
            some (1, (5120, 2880), 60000))) = true := by
    decide +kernel
  obtain ⟨x, hx, hobj⟩ := exists_of_any hsome
  obtain ⟨o, ho, houtput⟩ := exists_of_any hobj
  obtain ⟨y, hy, hchecked⟩ := exists_of_any houtput
  obtain ⟨hversion, hformed, hdue⟩ := of_decide_eq_true hchecked
  refine ⟨x, _, hx, rfl, ?_⟩
  rw [← hdue]
  exact current_modes_told outputSetting (by decide) (by decide +kernel) hx hformed rfl ho
    (asOutput_eq_some.mp hy) hversion

/-- The output is released, and its id goes to another, of 1920x1080. Then the `zxdg_output_v1` says the new
logical size of the output it was made for. -/
def outputReused : List Action :=
  outputSaid ++
    [.request ⟨3, 0, []⟩ ⟨some 0, true⟩,
      .event { sender := 10, opcode := 0, args := [.uint 3, .str (some "wl_output"), .uint 4] },
      .request ⟨2, 0, [.uint 3, .str (some "wl_output"), .uint 4, .newId 3]⟩ ⟨some 14, true⟩,
      .event { sender := 14, opcode := 0, args := [.uint 1, .int 1920, .int 1080, .int 60000] },
      .event { sender := 13, opcode := 0, args := [.int 1280, .int 720] }]

def reusedDone : Action :=
  .event { sender := 14, opcode := 2, args := [] }

/-- The other output is then told a mode of that logical size, 2560x1440. -/
theorem other_size_told :
    ∃ x s' o y, StepsMeet (watched (step outputSetting) hears) (fun x a => WellFormed x.1 a)
        (State.initial Unit outputSetting, fun _ => {}) outputReused ∧
      run (watched (step outputSetting) hears) (State.initial Unit outputSetting, fun _ => {}) outputReused = some x ∧
      WellFormed x.1 reusedDone ∧ step outputSetting x.1 reusedDone = some s' ∧
      x.1.obj 3 = some o ∧ o.role = .output y ∧ 2 ≤ o.version ∧
      ¬TellsDue (modeDue outputSetting x.1.outputs y.global (hears x.1 reusedDone x.2 o.born)) x.1 s' 3 := by
  have hsome : ((run (watched (step outputSetting) hears) (State.initial Unit outputSetting, fun _ => {})
      outputReused).any fun x => (x.1.obj 3).any fun o => o.role.asOutput.any fun y =>
        (step outputSetting x.1 reusedDone).any fun s' =>
          decide (2 ≤ o.version ∧ WellFormed x.1 reusedDone ∧
            modeDue outputSetting x.1.outputs y.global (hears x.1 reusedDone x.2 o.born) =
              some (1, (1920, 1080), 60000) ∧
            s'.log = x.1.log ++ .own 3 "mode" [.uint 1, .int 2560, .int 1440, .int 60000] ::
              s'.log.drop (x.1.log.length + 1))) = true := by
    decide +kernel
  obtain ⟨x, hx, hobj⟩ := exists_of_any hsome
  obtain ⟨o, ho, houtput⟩ := exists_of_any hobj
  obtain ⟨y, hy, hstep⟩ := exists_of_any houtput
  obtain ⟨s', hs', hchecked⟩ := exists_of_any hstep
  obtain ⟨hversion, hformed, hdue, hlog⟩ := of_decide_eq_true hchecked
  refine ⟨x, s', o, y, by decide +kernel, hx, hformed, hs', ho, asOutput_eq_some.mp hy, hversion, fun htells => ?_⟩
  rw [hdue] at htells
  have htold := ((htells _ _ _ hlog (le_refl _)).2 (1, (2560, 1440), 60000) (by decide)).1
  exact absurd htold (by decide)

end Psbox.Decorations
