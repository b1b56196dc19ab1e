import Psbox.Decorations.Frame

/-!
# What the Compositor Was Asked For

The limits of a toplevel and the placing of a positioner are set by requests. `copyOf` is what the
compositor has of them, from the requests in the log, and `asks` what the bridge asked for. The
proxy adds the height of a title bar to the first: to a toplevel's limits as long as it has one, and
to a positioner while a request uses it (`Mirrors`).
-/

namespace Psbox.Decorations

open Psbox.Foundations
open State (limitRequests positionerRequests)

variable {F : Type} {E : Setting F}

/-! ## Section 1: What Is Asked -/

/-- What the limits of a toplevel, or the anchor and the parent size of a positioner, were set to. -/
structure Own where
  min : Int × Int := (0, 0)
  max : Int × Int := (0, 0)
  anchor : Option (Int × Int × Int × Int) := none
  parentSize : Option (Int × Int) := none
  deriving DecidableEq, Repr

/-- What a request sets. -/
def Own.take {ρ : Type} (own : Own) (request : String) (args : List (Arg ρ)) : Own :=
  match request, args with
  | "set_min_size", [.int w, .int h] => { own with min := (w, h) }
  | "set_max_size", [.int w, .int h] => { own with max := (w, h) }
  | "set_anchor_rect", [.int x, .int y, .int w, .int h] => { own with anchor := some (x, y, w, h) }
  | "set_parent_size", [.int w, .int h] => { own with parentSize := some (w, h) }
  | _, _ => own

/-- The object of the compositor's that a request is passed on to. -/
def Entry.target : Entry → Option ObjectId
  | .passed target _ _ => some target
  | _ => none

/-- What a request to an object of the compositor's sets of it. -/
def Entry.set (up : ObjectId) (own : Own) : Entry → Own
  | .passed target request args => if target = up then own.take request args else own
  | _ => own

/-- What an object of the compositor's was set to, by the requests in the log. -/
def copyOf (up : ObjectId) (log : List Entry) : Own :=
  log.foldl (Entry.set up) {}

/-- What the bridge asked for, by the serial numbers of its objects, goes on with each request. -/
def asks (s : State F) (a : Action) (w : Nat → Own) : Nat → Own :=
  match a with
  | .request m _ =>
      match s.obj m.sender with
      | some o =>
          match o.iface.requests[m.opcode]? with
          | some desc => Function.update w o.born ((w o.born).take desc.name m.args)
          | none => w
      | none => w
  | _ => w

private theorem Entry.set_of_target {up : ObjectId} {e : Entry} (h : e.target ≠ some up) (own : Own) :
    e.set up own = own := by
  -- Only what was asked on this object of the compositor's counts.
  cases e with
  | passed target request args => exact if_neg fun hsame => h (congrArg some hsame)
  | _ => rfl

theorem copyOf_append (up : ObjectId) (log : List Entry) (e : Entry) :
    copyOf up (log ++ [e]) = e.set up (copyOf up log) :=
  List.foldl_concat _ _ _ _

/-- Two that are the same in what goes for objects of an interface. -/
structure Own.SameFor (iface : String) (own own' : Own) : Prop where
  limits : iface = "xdg_toplevel" → own'.min = own.min ∧ own'.max = own.max
  placing : iface = "xdg_positioner" → own'.anchor = own.anchor ∧ own'.parentSize = own.parentSize

theorem Own.SameFor.refl {iface : String} (own : Own) : own.SameFor iface own :=
  ⟨fun _ => ⟨rfl, rfl⟩, fun _ => ⟨rfl, rfl⟩⟩

theorem Own.SameFor.trans {iface : String} {a b c : Own} (h : a.SameFor iface b) (h' : b.SameFor iface c) :
    a.SameFor iface c := by
  refine ⟨fun hi => ?_, fun hi => ?_⟩
  · obtain ⟨hmin, hmax⟩ := h.limits hi
    obtain ⟨hmin', hmax'⟩ := h'.limits hi
    exact ⟨hmin'.trans hmin, hmax'.trans hmax⟩
  · obtain ⟨hanchor, hsize⟩ := h.placing hi
    obtain ⟨hanchor', hsize'⟩ := h'.placing hi
    exact ⟨hanchor'.trans hanchor, hsize'.trans hsize⟩

/-- The requests that set what goes for objects of an interface. -/
def settingRequests (iface : String) : List String :=
  if iface = "xdg_toplevel" then limitRequests
  else if iface = "xdg_positioner" then positionerRequests
  else []

theorem Own.take_sameFor {ρ : Type} (own : Own) {iface request : String} (args : List (Arg ρ))
    (h : request ∉ settingRequests iface) : own.SameFor iface (own.take request args) := by
  unfold Own.take
  split
  -- Case by case of the requests that set something.
  case h_5 => exact SameFor.refl own
  all_goals
    refine ⟨fun hi => ?_, fun hi => ?_⟩
    all_goals
      subst hi
      first
        | exact ⟨rfl, rfl⟩
        | exact absurd (by decide) h

/-! ## Section 2: The Invariant -/

def InRange (v : Int) : Prop :=
  -2147483648 ≤ v ∧ v ≤ 2147483647

instance (v : Int) : Decidable (InRange v) :=
  inferInstanceAs (Decidable (_ ∧ _))

theorem saturate_of_inRange {v : Int} (h : InRange v) : saturate v = v := by
  obtain ⟨hlow, hhigh⟩ := h
  unfold saturate
  omega

/-- A limit that takes in a title bar. -/
def grown (height : Int) (limit : Int × Int) : Int × Int :=
  (limit.1, if limit.2 > 0 then saturate (limit.2 + height) else limit.2)

/-- An anchor below a title bar. -/
def shiftAnchor (height : Int) (anchor : Int × Int × Int × Int) : Int × Int × Int × Int :=
  (anchor.1, saturate (anchor.2.1 + height), anchor.2.2.1, anchor.2.2.2)

/-- A parent size that takes in a title bar. -/
def growSize (height : Int) (size : Int × Int) : Int × Int :=
  (size.1, saturate (size.2 + height))

theorem grown_zero {limit : Int × Int} (h : InRange limit.2) : grown 0 limit = limit := by
  unfold grown
  rw [Int.add_zero, saturate_of_inRange h, ite_self]

/-- What the proxy tracks of an object is what the bridge asked for, and the compositor's copy takes
in the height of its title bar (if `level`), or `shift` for a positioner. -/
structure Mirrored (level : Prop) (height shift : Int) (own copy : Own) (o : Obj) : Prop where
  limits : o.iface.name = "xdg_toplevel" → ∀ t, o.role = .toplevel t →
    t.min = own.min ∧ t.max = own.max ∧ InRange own.min.2 ∧ InRange own.max.2 ∧
      (level → copy.min = grown height own.min ∧ copy.max = grown height own.max)
  placing : o.iface.name = "xdg_positioner" → ∀ a p, o.role = .positioner a p →
    a = own.anchor ∧ p = own.parentSize ∧ (∀ r ∈ own.anchor, InRange r.2.1) ∧
      (∀ x ∈ own.parentSize, InRange x.2 ∧ 3 ≤ o.version) ∧
      copy.anchor = own.anchor.map (shiftAnchor shift) ∧
      copy.parentSize = own.parentSize.map (growSize shift)

/-- An object of the compositor's that nothing was made of so far. -/
structure State.Unheard (s : State F) (up : ObjectId) : Prop where
  objects : ∀ x ∈ s.objects.entries, x.2.kind ≠ .upstream (some up)
  log : ∀ e ∈ s.log, e.target ≠ some up

instance (s : State F) (up : ObjectId) : Decidable (s.Unheard up) :=
  decidable_of_iff ((∀ x ∈ s.objects.entries, x.2.kind ≠ .upstream (some up)) ∧
    ∀ e ∈ s.log, e.target ≠ some up) ⟨fun h => ⟨h.1, h.2⟩, fun h => ⟨h.objects, h.log⟩⟩

/-- What is tracked of limits and placing was tracked. -/
structure Role.Within (r' r : Role) : Prop where
  toplevel : ∀ t', r' = .toplevel t' → ∃ t, r = .toplevel t ∧ t.min = t'.min ∧ t.max = t'.max
  positioner : ∀ a p, r' = .positioner a p → r = .positioner a p

theorem Role.Within.refl (r : Role) : r.Within r :=
  ⟨fun t ht => ⟨t, ht, rfl, rfl⟩, fun _ _ h => h⟩

/-- A role of another kind. -/
theorem Role.Within.of_tag {r' : Role} (r : Role) (htoplevel : r'.tag ≠ .toplevel)
    (hpositioner : r'.tag ≠ .positioner) : r'.Within r := by
  refine ⟨fun t ht => ?_, fun a p hp => ?_⟩
  · rw [ht] at htoplevel
    exact absurd rfl htoplevel
  · rw [hp] at hpositioner
    exact absurd rfl hpositioner

theorem Mirrored.mono {level level' : Prop} {height height' shift : Int} {own own' copy copy' : Own} {o o' : Obj}
    (h : Mirrored level height shift own copy o) (hlevel : level' → level ∧ height' = height)
    (hcore : o'.core = o.core) (hrole : o'.role.Within o.role) (hown : own.SameFor o.iface.name own')
    (hcopy : copy.SameFor o.iface.name copy') : Mirrored level' height' shift own' copy' o' := by
  obtain ⟨hiface, hversion, _, _⟩ : o'.iface = o.iface ∧ o'.version = o.version ∧ o'.kind = o.kind ∧
      o'.born = o.born := by simpa [Obj.core] using hcore
  refine ⟨fun hi t' ht' => ?_, fun hi a p hp => ?_⟩
  -- A toplevel: its limits are as before on both sides.
  · rw [hiface] at hi
    obtain ⟨t, ht, hmin, hmax⟩ := hrole.toplevel t' ht'
    obtain ⟨hownmin, hownmax⟩ := hown.limits hi
    obtain ⟨hcopymin, hcopymax⟩ := hcopy.limits hi
    rw [← hmin, ← hmax, hownmin, hownmax, hcopymin, hcopymax]
    obtain ⟨htmin, htmax, hrmin, hrmax, hcopies⟩ := h.limits hi t ht
    refine ⟨htmin, htmax, hrmin, hrmax, fun hl => ?_⟩
    obtain ⟨hl, hheight⟩ := hlevel hl
    rw [hheight]
    exact hcopies hl
  -- A positioner: what places it is as before on both sides.
  · rw [hiface] at hi
    obtain ⟨hanchor, hsize⟩ := hown.placing hi
    obtain ⟨hcopyanchor, hcopysize⟩ := hcopy.placing hi
    rw [hanchor, hsize, hcopyanchor, hcopysize, hversion]
    exact h.placing hi a p (hrole.positioner a p hp)

/-- In every object that is forwarded, and each one's object of the compositor's is its own. -/
structure State.Mirrors (E : Setting F) (level : Id → Prop) (shift : Id → Int) (s : State F)
    (w : Nat → Own) : Prop where
  apart : ∀ id id' o o' up, s.obj id = some o → s.obj id' = some o' → o.kind = .upstream (some up) →
    o'.kind = .upstream (some up) → id = id'
  fresh : ∀ b, s.births ≤ b → w b = {}
  objects : ∀ id o up, s.obj id = some o → o.kind = .upstream (some up) →
    Mirrored (level id) (s.frameOffset E id) (shift id) (w o.born) (copyOf up s.log) o

namespace State.Mirrors

variable {s s' : State F} {w w' : Nat → Own} {level level' : Id → Prop} {shift : Id → Int}

/-- The same objects, some may be gone, with nothing set of them. -/
theorem of_same (h : s.Mirrors E level shift w)
    (hobj : ∀ id o', s'.obj id = some o' → ∃ o, s.obj id = some o ∧ o'.core = o.core ∧ o'.role.Within o.role)
    (hbirths : s.births ≤ s'.births) (hfresh : ∀ b, s'.births ≤ b → w' b = w b)
    (hlevel : ∀ id, (s'.obj id).isSome → level' id → level id ∧ s'.frameOffset E id = s.frameOffset E id)
    (hown : ∀ id o up, s.obj id = some o → o.kind = .upstream (some up) →
      (w o.born).SameFor o.iface.name (w' o.born))
    (hcopy : ∀ id o up, s.obj id = some o → o.kind = .upstream (some up) →
      (copyOf up s.log).SameFor o.iface.name (copyOf up s'.log)) : s'.Mirrors E level' shift w' := by
  refine ⟨fun id id' o₁ o₂ up ho₁ ho₂ hk₁ hk₂ => ?_, fun b hb => ?_, fun id o' up ho' hk' => ?_⟩
  -- Two of the new state are two of the old one.
  · obtain ⟨o, ho, hcore, _⟩ := hobj id o₁ ho₁
    obtain ⟨o', ho', hcore', _⟩ := hobj id' o₂ ho₂
    have hkind : o₁.kind = o.kind := congrArg (fun c => c.2.2.1) hcore
    have hkind' : o₂.kind = o'.kind := congrArg (fun c => c.2.2.1) hcore'
    exact h.apart id id' o o' up ho ho' (hkind ▸ hk₁) (hkind' ▸ hk₂)
  -- An object that was not born has nothing set.
  · rw [hfresh b hb]
    exact h.fresh b (Nat.le_trans hbirths hb)
  -- And each object that is there was there.
  · obtain ⟨o, ho, hcore, hrole⟩ := hobj id o' ho'
    have hkind : o'.kind = o.kind := congrArg (fun c => c.2.2.1) hcore
    have hborn : o'.born = o.born := congrArg (fun c => c.2.2.2) hcore
    rw [hborn]
    have hsome : (s'.obj id).isSome := by
      rw [ho']
      rfl
    exact (h.objects id o up ho (hkind ▸ hk')).mono (hlevel id hsome) hcore hrole
      (hown id o up ho (hkind ▸ hk')) (hcopy id o up ho (hkind ▸ hk'))

/-- Objects that change in nothing of this. -/
theorem of_quiet (h : s.Mirrors E level shift w) (hq : Quiet s s')
    (hrole : ∀ id r', s'.role id = some r' → ∃ r, s.role id = some r ∧ r'.Within r)
    (hheight : ∀ id, level' id → level id ∧ s'.frameOffset E id = s.frameOffset E id)
    (hcopy : ∀ id o up, s.obj id = some o → o.kind = .upstream (some up) →
      (copyOf up s.log).SameFor o.iface.name (copyOf up s'.log)) : s'.Mirrors E level' shift w := by
  apply h.of_same _ (le_of_eq hq.births.symm) (fun _ _ => rfl) (fun id _ => hheight id)
    (fun _ _ _ _ _ => .refl _) hcopy
  -- The role may have changed, as long as what is tracked stays.
  intro id o' ho'
  have hcore := hq.core id
  rw [ho'] at hcore
  obtain ⟨o, ho, hcore⟩ := Option.map_eq_some_iff.mp hcore.symm
  obtain ⟨r, hr, hwithin⟩ := hrole id o'.role (role_eq_some.mpr ⟨o', ho', rfl⟩)
  obtain ⟨o₁, ho₁, rfl⟩ := role_eq_some.mp hr
  obtain rfl := Option.some.inj (ho.symm.trans ho₁)
  exact ⟨o, ho, hcore.symm, hwithin⟩

end State.Mirrors

/-! ## Section 3: Operations -/

theorem copyOf_eq_of_forall {up : ObjectId} {log : List Entry} (new : List Entry)
    (h : ∀ e ∈ new, ∀ own, e.set up own = own) : copyOf up (log ++ new) = copyOf up log := by
  -- What was kept so far is general, since the new entries go on from it.
  unfold copyOf
  rw [List.foldl_append]
  generalize log.foldl (Entry.set up) {} = own
  induction new generalizing own with
  | nil => rfl
  | cons e new ih =>
      rw [List.foldl_cons, h e List.mem_cons_self]
      exact ih (fun e' he' => h e' (List.mem_cons_of_mem _ he')) own

theorem State.Unheard.copyOf {s : State F} {up : ObjectId} (h : s.Unheard up) : copyOf up s.log = {} := by
  have hall := @copyOf_eq_of_forall up [] s.log fun e he own => Entry.set_of_target (h.log e he) own
  exact hall

theorem State.Unheard.kind {s : State F} {up : ObjectId} (h : s.Unheard up) {id : Id} {o : Obj}
    (ho : s.obj id = some o) : o.kind ≠ .upstream (some up) :=
  h.objects ⟨id, o⟩ (AList.mem_lookup_iff.mp ho)

/-- A role of an object nothing was asked of. -/
structure Role.Unset (r : Role) : Prop where
  toplevel : ∀ t, r = .toplevel t → t.min = (0, 0) ∧ t.max = (0, 0)
  positioner : ∀ a p, r = .positioner a p → a = Option.none ∧ p = Option.none

theorem Role.Unset.of_tag {r : Role} (htoplevel : r.tag ≠ .toplevel) (hpositioner : r.tag ≠ .positioner) :
    r.Unset := by
  refine ⟨fun t ht => ?_, fun a p hp => ?_⟩
  · rw [ht] at htoplevel
    exact absurd rfl htoplevel
  · rw [hp] at hpositioner
    exact absurd rfl hpositioner

theorem Role.unset_forInterface (name : String) : (Role.forInterface name).Unset := by
  unfold Role.forInterface
  split
  · exact .of_tag nofun nofun
  split
  · exact .of_tag nofun nofun
  split
  · exact .of_tag nofun nofun
  split
  -- A positioner is made with nothing set.
  · refine ⟨nofun, fun a p hp => ?_⟩
    obtain ⟨ha, hp⟩ := Role.positioner.inj hp
    exact ⟨ha.symm, hp.symm⟩
  split
  · exact .of_tag nofun nofun
  split <;> exact .of_tag nofun nofun

theorem State.unset_boundRole (iface : String) (name : Nat) : (boundRole iface name).Unset := by
  unfold boundRole
  split
  · exact .of_tag nofun nofun
  · exact Role.unset_forInterface iface

/-- Nothing was asked of an object, and the compositor was asked for nothing. -/
theorem Mirrored.unset {level : Prop} {height shift : Int} {o : Obj} (h : o.role.Unset) :
    Mirrored level height shift {} {} o := by
  refine ⟨fun _ t ht => ?_, fun _ a p hp => ?_⟩
  · obtain ⟨hmin, hmax⟩ := h.toplevel t ht
    have hzero : grown height (0, 0) = (0, 0) := rfl
    exact ⟨hmin, hmax, by decide, by decide, fun _ => ⟨hzero.symm, hzero.symm⟩⟩
  · obtain ⟨ha, hp⟩ := h.positioner a p hp
    exact ⟨ha, hp, nofun, nofun, rfl, rfl⟩

namespace State.Mirrors

variable {s s' : State F} {w w' : Nat → Own} {level level' : Id → Prop} {shift : Id → Int}

theorem mono (h : s.Mirrors E level shift w) (hlevel : ∀ id, level' id → level id) :
    s.Mirrors E level' shift w :=
  h.of_same (fun _ o ho => ⟨o, ho, rfl, .refl _⟩) le_rfl (fun _ _ => rfl) (fun id _ hl => ⟨hlevel id hl, rfl⟩)
    (fun _ _ _ _ _ => .refl _) fun _ _ _ _ _ => .refl _

theorem same (h : s.Mirrors E level shift w) (hobjects : s'.objects = s.objects) (hbirths : s'.births = s.births)
    (hheight : ∀ id, s'.frameOffset E id = s.frameOffset E id) (hlog : ∀ up, copyOf up s'.log = copyOf up s.log) :
    s'.Mirrors E level shift w := by
  apply h.of_same _ (le_of_eq hbirths.symm) (fun _ _ => rfl) (fun id _ hl => ⟨hl, hheight id⟩)
    (fun _ _ _ _ _ => .refl _) fun id o up _ _ => by
      rw [hlog]
      exact .refl _
  intro id o ho
  unfold State.obj at ho
  rw [hobjects] at ho
  exact ⟨o, ho, rfl, .refl _⟩

theorem note (h : s.Mirrors E level shift w) {e : Entry} (he : ∀ up own, e.set up own = own) :
    (s.note e).Mirrors E level shift w :=
  h.same rfl rfl (fun _ => rfl) fun up => (copyOf_append up s.log e).trans (he up _)

theorem with_data (h : s.Mirrors E level shift w) (data : Table Id) :
    { s with data := data }.Mirrors E level shift w :=
  h.same rfl rfl (fun _ => rfl) fun _ => rfl

theorem adjustRole (h : s.Mirrors E level shift w) (id : Id) {f : Role → Role}
    (hf : ∀ r, s.role id = some r → (f r).Within r) : (s.adjustRole id f).Mirrors E level shift w := by
  refine h.of_same (fun j o' ho' => ?_) le_rfl (fun _ _ => rfl) (fun _ _ hl => ⟨hl, rfl⟩)
    (fun _ _ _ _ _ => .refl _) fun _ _ _ _ _ => .refl _
  rw [obj_adjustRole] at ho'
  split at ho'
  · rename_i hj
    obtain ⟨o, ho, rfl⟩ := Option.map_eq_some_iff.mp ho'
    exact ⟨o, ho, rfl, hf o.role (role_eq_some.mpr ⟨o, hj ▸ ho, rfl⟩)⟩
  · exact ⟨o', ho', rfl, .refl _⟩

/-- Requests on an object, which set nothing that goes for it. -/
theorem passed (h : s.Mirrors E level shift w) {sender : Id} {o : Obj} {up : ObjectId}
    (ho : s.obj sender = some o) (hkind : o.kind = .upstream (some up)) {request : String}
    (hrequest : request ∉ settingRequests o.iface.name) (args : List UpstreamArg) :
    (s.note (.passed up request args)).Mirrors E level shift w := by
  -- The request concerns the copy of this object only.
  refine h.of_same (fun _ o ho => ⟨o, ho, rfl, .refl _⟩) le_rfl (fun _ _ => rfl) (fun _ _ hl => ⟨hl, rfl⟩)
    (fun _ _ _ _ _ => .refl _) fun id o' up' ho' hkind' => ?_
  show (copyOf up' s.log).SameFor _ (copyOf up' (s.log ++ [.passed up request args]))
  rw [copyOf_append]
  show Own.SameFor _ _ (if up = up' then _ else _)
  split
  · rename_i hup
    -- No two objects have the same one of the compositor's.
    obtain rfl := h.apart id sender o' o up' ho' ho hkind' (hup ▸ hkind)
    obtain rfl := Option.some.inj (ho.symm.trans ho')
    exact Own.take_sameFor _ _ hrequest
  · exact .refl _

/-- A new object, and a new one of the compositor's. -/
theorem create (h : s.Mirrors E level shift w) (origin : Origin) (id : Id) (iface : Interface) (version : Nat)
    {kind : Kind} {role : Role} (hnew : ∀ up, kind = .upstream (some up) → s.Unheard up) (hrole : role.Unset) :
    (s.create origin id iface version kind role).Mirrors E level shift w := by
  -- An object after it is the new one or one from before.
  have hcases : ∀ j o, (s.create origin id iface version kind role).obj j = some o →
      j = id ∧ o.kind = kind ∧ o.born = s.births ∧ o.role = role ∨ j ≠ id ∧ s.obj j = some o := by
    intro j o ho
    rw [obj_create] at ho
    split at ho
    · rename_i hj
      rw [← Option.some.inj ho]
      exact .inl ⟨hj, rfl, rfl, rfl⟩
    · rename_i hj
      exact .inr ⟨hj, ho⟩
  have hcopy : ∀ up, copyOf up (s.create origin id iface version kind role).log = copyOf up s.log :=
    fun up => copyOf_append up s.log _
  refine ⟨fun j j' o o' up ho ho' hk hk' => ?_, fun b hb => h.fresh b (Nat.le_of_succ_le hb), fun j o up ho hk => ?_⟩
  -- The new object's own was unheard of, so no other has it.
  · rcases hcases j o ho with ⟨rfl, hkind, _⟩ | ⟨_, hold⟩ <;>
      rcases hcases j' o' ho' with ⟨rfl, hkind', _⟩ | ⟨_, hold'⟩
    · rfl
    · exact absurd hk' ((hnew up (hkind.symm.trans hk)).kind hold')
    · exact absurd hk ((hnew up (hkind'.symm.trans hk')).kind hold)
    · exact h.apart j j' o o' up hold hold' hk hk'
  · rw [hcopy]
    rcases hcases j o ho with ⟨_, hkind, hborn, hr⟩ | ⟨_, ho⟩
    · rw [hborn, h.fresh _ le_rfl, (hnew up (hkind.symm.trans hk)).copyOf]
      exact Mirrored.unset (hr ▸ hrole)
    · exact h.objects j o up ho hk

theorem createForwarded (h : s.Mirrors E level shift w) (id : Id) (iface : Interface) (version : Nat)
    {up : ObjectId} {role : Role} (hnew : s.Unheard up) (hrole : role.Unset) :
    (s.createForwarded id iface version up role).Mirrors E level shift w := by
  apply with_data
  apply h.create _ _ _ _ _ hrole
  intro up' hup
  cases hup
  exact hnew

theorem destroy (h : s.Mirrors E level' shift w) (id : Id) (hlevel : ∀ j, j ≠ id → level j → level' j) :
    ((s.destroy id).deleteId id).Mirrors E level shift w := by
  have hobj : ∀ j, ((s.destroy id).deleteId id).obj j = if j = id then none else s.obj j := fun j => by
    rw [obj_deleteId, obj_destroy]
  have hgone : ∀ {e : Entry}, e = .destroyed id ∨ e = .deleteId id → ∀ up own, e.set up own = own := by
    rintro e (rfl | rfl) up own <;> rfl
  have hlog : ∀ up, copyOf up ((s.destroy id).deleteId id).log = copyOf up s.log := by
    intro up
    unfold deleteId
    split
    · exact (copyOf_append up _ _).trans (copyOf_append up _ _)
    · exact copyOf_append up _ _
  have hframes : ((s.destroy id).deleteId id).frames = s.frames := by
    unfold deleteId
    split <;> rfl
  have hbirths : ((s.destroy id).deleteId id).births = s.births := by
    unfold deleteId
    split <;> rfl
  -- Those that remain have the title bars they had.
  apply h.of_same _ (le_of_eq hbirths.symm) (fun _ _ => rfl) _ (fun _ _ _ _ _ => .refl _)
    fun _ _ up _ _ => by
      rw [hlog]
      exact .refl _
  · intro j o ho
    rw [hobj] at ho
    split at ho
    · cases ho
    · exact ⟨o, ho, rfl, .refl _⟩
  · intro j hj hl
    refine ⟨hlevel j ?_ hl, frameOffset_of_frames hframes j⟩
    rintro rfl
    rw [hobj, if_pos rfl] at hj
    cases hj

end State.Mirrors

namespace State

variable {s : State F}

private theorem copyOf_sendAnchor (s : State F) (up : ObjectId) (anchor : Option (Int × Int × Int × Int)) (height : Int) :
    copyOf up (s.sendAnchor (some up) anchor height).log =
      { copyOf up s.log with anchor := (anchor.map (shiftAnchor height)).or (copyOf up s.log).anchor } := by
  cases anchor with
  | none => rfl
  | some r =>
      show copyOf up (s.log ++ [_]) = _
      rw [copyOf_append]
      exact if_pos rfl

private theorem copyOf_sendParentSize (s : State F) (up : ObjectId) {version : Nat} {size : Option (Int × Int)}
    (hversion : size.isSome → 3 ≤ version) (height : Int) :
    -- With no anchor there is nothing to send.
    copyOf up (s.sendParentSize (some up) version size height).log =
      { copyOf up s.log with parentSize := (size.map (growSize height)).or (copyOf up s.log).parentSize } := by
  cases size with
  | none => rfl
  | some x =>
      unfold sendParentSize
      dsimp only
      rw [if_pos (hversion rfl)]
      show copyOf up (s.log ++ [_]) = _
      rw [copyOf_append]
      exact if_pos rfl

theorem copyOf_requestUpstream {up up' : ObjectId} (hne : up ≠ up') (s : State F) (name : String)
    (args : List Int) : copyOf up' (s.requestUpstream (some up) name args).log = copyOf up' s.log :=
  (copyOf_append up' s.log _).trans (if_neg hne)

/-- What is sent for a positioner goes to its own object. -/
theorem copyOf_setPositioner {positioner : Id} {o : Obj} {up up' : ObjectId} (ho : s.obj positioner = some o)
    (hkind : o.kind = .upstream (some up)) (hne : up ≠ up') (height : Int) :
    copyOf up' (s.setPositioner positioner height).log = copyOf up' s.log := by
  unfold setPositioner
  rw [ho]
  dsimp only
  rw [hkind]
  split
  -- What is sent goes to the positioner's own object, which is another one.
  · rename_i up₁ anchor size hup _
    cases hup
    have hanchor : copyOf up' (s.sendAnchor (some up) anchor height).log = copyOf up' s.log := by
      unfold sendAnchor
      split
      -- Without an anchor nothing is sent.
      · exact copyOf_requestUpstream hne s _ _
      · rfl
    unfold sendParentSize
    split
    · split
      · exact (copyOf_requestUpstream hne _ _ _).trans hanchor
      · exact hanchor
    · exact hanchor
  · rfl

theorem setPositioner_same (s : State F) (positioner : Id) (height : Int) :
    (s.setPositioner positioner height).objects = s.objects ∧
      (s.setPositioner positioner height).births = s.births ∧
      (s.setPositioner positioner height).frames = s.frames := by
  have hask : ∀ (t : State F) up name as, (t.requestUpstream up name as).objects = t.objects ∧
      (t.requestUpstream up name as).births = t.births ∧ (t.requestUpstream up name as).frames = t.frames := by
    intro t up name as
    cases up <;> exact ⟨rfl, rfl, rfl⟩
  have hanchor : ∀ up a, (s.sendAnchor up a height).objects = s.objects ∧
      (s.sendAnchor up a height).births = s.births ∧ (s.sendAnchor up a height).frames = s.frames := by
    intro up a
    unfold sendAnchor
    split
    · exact hask _ _ _ _
    · exact ⟨rfl, rfl, rfl⟩
  unfold setPositioner
  split
  · split
    · rename_i up anchor size _ _
      obtain ⟨h₁, h₂, h₃⟩ := hanchor up anchor
      unfold sendParentSize
      split
      · split
        · obtain ⟨h₁', h₂', h₃'⟩ := hask (s.sendAnchor up anchor height) up "set_parent_size" _
          exact ⟨h₁'.trans h₁, h₂'.trans h₂, h₃'.trans h₃⟩
        · exact ⟨h₁, h₂, h₃⟩
      · exact ⟨h₁, h₂, h₃⟩
    · exact ⟨rfl, rfl, rfl⟩
  · exact ⟨rfl, rfl, rfl⟩

/-- Where there is nothing to send for. -/
theorem setPositioner_none {positioner : Id}
    (hnone : ∀ o up a p, s.obj positioner = some o → o.kind = .upstream (some up) →
      o.role = .positioner a p → a = none ∧ p = none) (height : Int) : (s.setPositioner positioner height).log = s.log := by
  unfold setPositioner
  split
  · rename_i o ho
    split
    · rename_i up anchor size hkind hrole
      -- An object that the compositor does not have is sent nothing.
      cases up with
      | none =>
          have hanchor : s.sendAnchor none anchor height = s := by
            unfold sendAnchor
            split <;> rfl
          rw [hanchor]
          unfold sendParentSize
          split
          · split <;> rfl
          · rfl
      | some up =>
          obtain ⟨rfl, rfl⟩ := hnone o up anchor size ho hkind hrole
          rfl
    · rfl
  · rfl

end State

namespace State.Mirrors

variable {s s' : State F} {w w' : Nat → Own} {level level' : Id → Prop} {shift : Id → Int}

/-- Setting a positioner, with the height of a title bar. -/
theorem setPositioner (h : s.Mirrors E level shift w) (positioner : Id) (height : Int) :
    (s.setPositioner positioner height).Mirrors E level (Function.update shift positioner height) w := by
  obtain ⟨hobjects, hbirths, hframes⟩ := s.setPositioner_same positioner height
  have hobj : ∀ id, (s.setPositioner positioner height).obj id = s.obj id := fun id => by
    rw [State.obj, State.obj, hobjects]
  refine ⟨fun id id' o o' up ho ho' => ?_, fun b hb => h.fresh b (hbirths ▸ hb), fun id o up ho hk => ?_⟩
  · rw [hobj] at ho ho'
    exact h.apart id id' o o' up ho ho'
  rw [hobj] at ho
  rw [frameOffset_of_frames hframes]
  -- The positioner itself, or another object.
  have hbefore := h.objects id o up ho hk
  by_cases hid : id = positioner
  · subst hid
    rw [Function.update_self]
    by_cases hrole : ∃ a p, o.role = .positioner a p
    · obtain ⟨a, p, hrole⟩ := hrole
      refine ⟨fun _ t ht => ?_, fun hi a' p' hrole' => ?_⟩
      · rw [hrole] at ht
        cases ht
      · obtain ⟨hanchor, hsize, hranges, hversion, hcopyanchor, hcopysize⟩ := hbefore.placing hi a' p' hrole'
        have hlog : copyOf up (s.setPositioner id height).log =
            copyOf up ((s.sendAnchor (some up) a' height).sendParentSize (some up) o.version p' height).log := by
          unfold State.setPositioner
          rw [ho]
          dsimp only
          rw [hk, hrole']
        have hthree : p'.isSome → 3 ≤ o.version := by
          rw [hsize]
          intro hsome
          obtain ⟨x, hx⟩ := Option.isSome_iff_exists.mp hsome
          exact (hversion x hx).2
        refine ⟨hanchor, hsize, hranges, hversion, ?_⟩
        rw [hlog, copyOf_sendParentSize _ _ hthree, copyOf_sendAnchor, hanchor, hsize, hcopyanchor, hcopysize]
        exact ⟨by cases (w o.born).anchor <;> rfl, by cases (w o.born).parentSize <;> rfl⟩
    · have hlog : (s.setPositioner id height).log = s.log := by
        apply setPositioner_none
        intro o' up' a p ho' _ hrole'
        obtain rfl := Option.some.inj (ho.symm.trans ho')
        exact absurd ⟨a, p, hrole'⟩ hrole
      rw [hlog]
      exact ⟨hbefore.limits, fun _ a p hrole' => absurd ⟨a, p, hrole'⟩ hrole⟩
  · rw [Function.update_of_ne hid]
    have hlog : copyOf up (s.setPositioner positioner height).log = copyOf up s.log := by
      by_cases hp : ∃ o' up', s.obj positioner = some o' ∧ o'.kind = .upstream (some up')
      · obtain ⟨o', up', ho', hk'⟩ := hp
        apply copyOf_setPositioner ho' hk'
        rintro rfl
        exact hid (h.apart id positioner o o' up' ho ho' hk hk')
      · rw [setPositioner_none]
        intro o' up' _ _ ho' hk'
        exact absurd ⟨o', up', ho', hk'⟩ hp
    rw [hlog]
    exact hbefore

/-- The positioner of a request is moved before it, by the height of a title bar. -/
theorem offsetPositioner (h : s.Mirrors E level (fun _ => 0) w) (positioner : Id) (height : Int) :
    (s.offsetPositioner positioner height).Mirrors E level (Function.update (fun _ => 0) positioner height) w := by
  unfold State.offsetPositioner
  split
  · exact h.setPositioner positioner height
  · rename_i hzero
    rw [not_not.mp hzero, Function.update_eq_self]
    exact h

/-- And put back after it. -/
theorem restorePositioner {positioner : Id} {height : Int}
    (h : s.Mirrors E level (Function.update (fun _ => 0) positioner height) w) :
    (s.restorePositioner positioner height).Mirrors E level (fun _ => 0) w := by
  unfold State.restorePositioner
  split
  · have hset := h.setPositioner positioner 0
    rw [Function.update_idem, Function.update_eq_self] at hset
    exact hset
  · rename_i hzero
    rw [not_not.mp hzero, Function.update_eq_self] at h
    exact h

end State.Mirrors

end Psbox.Decorations
