import Psbox.Decorations.Content
import Psbox.Decorations.Ids

/-!
# The Tracked Size is the Compositor's

The proxy tracks what surfaces and buffers are by their ids. `Tracks s c` says that this
agrees with the contents `c`, which go by the objects themselves. In a run whose steps
meet `SizeOk` it always does, and so the size at each commit is the one of the content.
-/

namespace Psbox.Decorations

open Psbox.Foundations

variable {F : Type} {E : Setting F}

/-! ## Section 1: Agreement -/

def Role.bufferSize : Role → Option (Int × Int)
  | .buffer width height => some (width, height)
  | _ => Option.none

def Contents.sizeOf (c : Contents) (r : Ref) : Option (Int × Int) :=
  r.born.bind c.buffers

/-- The content that a surface's size state stands for. -/
def Surface.content (x : Surface) (c : Contents) : Content where
  buffer := x.attached.bind c.sizeOf
  pendingBuffer := x.pendingAttach.map fun b => b.bind c.sizeOf
  scale := x.scale
  pendingScale := x.pendingScale
  destination := x.destination
  pendingDestination := x.pendingDestination

/-- The buffers of a surface. -/
def Surface.buffers (x : Surface) : List Ref :=
  x.attached.toList ++ x.pendingAttach.join.toList

/-- A role agrees with the contents about an object, one of less than `n` that there
were. -/
structure Contents.Agrees (c : Contents) (n b : Nat) (ρ : Role) : Prop where
  buffer : ρ.bufferSize = c.buffers b
  params : ∀ size, ρ = .bufferParams size → c.params b = size
  surface : ∀ x, ρ = .surface x → c.surfaces b = x.content c ∧
    ∀ r ∈ x.buffers, ∀ b', r.born = some b' → b' < n
  viewport : ∀ r, ρ = .viewport r → c.viewports b = r.born

/-- Nothing is known yet of an object. -/
structure Contents.Fresh (c : Contents) (b : Nat) : Prop where
  surface : c.surfaces b = {}
  buffer : c.buffers b = none
  params : c.params b = none

/-- What is tracked agrees with the contents. The objects there have serial numbers of
their own, less than how many objects there were; so has the surface of a viewport, which
is found under the id it was found under when the viewport was made. -/
structure State.Tracks (s : State F) (c : Contents) : Prop where
  lt : ∀ id o, s.obj id = some o → o.born < s.births
  inj : ∀ id id' o o', s.obj id = some o → s.obj id' = some o' → o.born = o'.born → id = id'
  fresh : ∀ b, s.births ≤ b → c.Fresh b
  agrees : ∀ id o, s.obj id = some o → c.Agrees s.births o.born o.role
  home : ∀ id r b, s.role id = some (.viewport r) → r.born = some b →
    b < s.births ∧ ∀ j o, s.obj j = some o → o.born = b → j = r.id

namespace Contents

private theorem content_congr {c c' : Contents} {x : Surface}
    (h : ∀ r ∈ x.buffers, c.sizeOf r = c'.sizeOf r) : x.content c = x.content c' := by
  have hattached : x.attached.bind c.sizeOf = x.attached.bind c'.sizeOf := by
    cases ha : x.attached with
    | none => rfl
    | some r =>
        apply h
        simp [Surface.buffers, ha]
  have hpending : (x.pendingAttach.map fun b => b.bind c.sizeOf) =
      x.pendingAttach.map fun b => b.bind c'.sizeOf := by
    cases hp : x.pendingAttach with
    | none => rfl
    | some b =>
        cases hb : b with
        | none => rfl
        | some r =>
            show some (c.sizeOf r) = some (c'.sizeOf r)
            rw [h]
            simp [Surface.buffers, hp, hb]
  unfold Surface.content
  rw [hattached, hpending]

/-- The same sized state, the same agreement. -/
theorem Agrees.of_sized {c : Contents} {n b : Nat} {ρ ρ' : Role} (h : c.Agrees n b ρ)
    (hsized : ρ'.sized = ρ.sized) : c.Agrees n b ρ' := by
  cases ρ' with
  | surface x' =>
      cases ρ with
      | surface x =>
          have hx := Role.surface.inj hsized
          have hcontent : x'.content c = x.content c := by
            have hboth := congrArg (fun y => Surface.content y c) hx
            exact hboth
          have hbuffers : x'.buffers = x.buffers := by
            have hboth := congrArg Surface.buffers hx
            exact hboth
          refine ⟨h.buffer, fun size hsize => (nomatch hsize), ?_, fun r hr => (nomatch hr)⟩
          intro y hy
          cases hy
          rw [hcontent, hbuffers]
          exact h.surface x rfl
      | _ => cases hsized
  | buffer w h' =>
      cases ρ with
      | buffer w' h'' =>
          cases hsized
          exact h
      | _ => cases hsized
  | bufferParams size =>
      cases ρ with
      | bufferParams size' =>
          cases hsized
          exact h
      | _ => cases hsized
  | viewport r =>
      cases ρ with
      | viewport r' =>
          cases hsized
          exact h
      | _ => cases hsized
  | _ =>
      cases ρ with
      | surface _ | buffer _ _ | bufferParams _ | viewport _ => cases hsized
      | _ => exact ⟨h.buffer, fun size hsize => (nomatch hsize), fun x hx => (nomatch hx),
          fun r hr => (nomatch hr)⟩

/-- More objects there were. -/
theorem Agrees.mono {c : Contents} {n n' b : Nat} {ρ : Role} (h : c.Agrees n b ρ) (hn : n ≤ n') :
    c.Agrees n' b ρ := by
  refine ⟨h.buffer, h.params, ?_, h.viewport⟩
  intro x hx
  obtain ⟨hcontent, hgiven⟩ := h.surface x hx
  exact ⟨hcontent, fun r hr b' hb' => lt_of_lt_of_le (hgiven r hr b' hb') hn⟩

/-- Nothing is known of an object, and nothing is tracked. -/
theorem Fresh.agrees {c : Contents} {n b : Nat} (h : c.Fresh b) {ρ : Role}
    (hbuffer : ρ.bufferSize = none) (hparams : ∀ size, ρ = .bufferParams size → size = none)
    (hsurface : ∀ x, ρ = .surface x → x = {}) (hviewport : ∀ r, ρ ≠ .viewport r) : c.Agrees n b ρ := by
  refine {
    buffer := hbuffer.trans h.buffer.symm, params := ?params, surface := ?surface,
    viewport := ?viewport }
  case params =>
    intro size hsize
    rw [hparams size hsize]
    exact h.params
  case surface =>
    intro x hx
    rw [hsurface x hx, h.surface]
    exact ⟨rfl, fun r hr => (nomatch hr)⟩
  case viewport =>
    intro r hr
    exact absurd hr (hviewport r)

private theorem Fresh.agrees_forInterface {c : Contents} {n b : Nat} (h : c.Fresh b) (name : String) :
    c.Agrees n b (Role.forInterface name) := by
  have hplain : ∀ ρ : Role, ρ.sized = .none → c.Agrees n b ρ := by
    intro ρ hρ
    have hnone : c.Agrees n b .none :=
      h.agrees rfl (fun size hsize => (nomatch hsize)) (fun x hx => (nomatch hx)) fun r hr => (nomatch hr)
    exact hnone.of_sized hρ
  unfold Role.forInterface
  split
  · exact h.agrees rfl (fun size hsize => (nomatch hsize)) (fun x hx => (Role.surface.inj hx).symm)
      fun r hr => (nomatch hr)
  split
  · exact hplain _ rfl
  split
  · exact h.agrees rfl (fun size hsize => (Role.bufferParams.inj hsize).symm) (fun x hx => (nomatch hx))
      fun r hr => (nomatch hr)
  split
  · exact hplain _ rfl
  split
  · exact hplain _ rfl
  split
  · exact hplain _ rfl
  · exact hplain _ rfl

/-- The size of the next object, as a buffer. -/
def sized (c : Contents) (n : Nat) (size : Option (Int × Int)) : Contents :=
  { c with buffers := Function.update c.buffers n size }

theorem Agrees.sized {c : Contents} {n b : Nat} {ρ : Role} (h : c.Agrees n b ρ) (hb : b < n)
    (size : Option (Int × Int)) : (c.sized n size).Agrees n b ρ := by
  have hother : ∀ b', b' < n → (c.sized n size).buffers b' = c.buffers b' :=
    fun b' hb' => Function.update_of_ne (ne_of_lt hb') _ _
  refine ⟨h.buffer.trans (hother b hb).symm, h.params, ?_, h.viewport⟩
  intro x hx
  obtain ⟨hcontent, hgiven⟩ := h.surface x hx
  refine ⟨?_, hgiven⟩
  show c.surfaces b = _
  rw [hcontent]
  apply content_congr
  intro r hr
  unfold sizeOf
  cases hborn : r.born with
  | none => rfl
  | some b' => exact (hother b' (hgiven r hr b' hborn)).symm

theorem Fresh.sized {c : Contents} {n b : Nat} (h : c.Fresh b) (hb : n < b)
    (size : Option (Int × Int)) : (c.sized n size).Fresh b :=
  ⟨h.surface, (Function.update_of_ne (ne_of_gt hb) _ _).trans h.buffer, h.params⟩

/-- A buffer of the size. -/
theorem agrees_buffer {c : Contents} {n b : Nat} (size : Int × Int) :
    (c.sized b (some size)).Agrees n b (.buffer size.1 size.2) :=
  ⟨(Function.update_self b (some size) c.buffers).symm, fun _ hsize => (nomatch hsize),
    fun _ hx => (nomatch hx), fun _ hr => (nomatch hr)⟩

end Contents

private theorem forInterface_ne_viewport (name : String) (r : Ref) : Role.forInterface name ≠ .viewport r := by
  intro hr
  have hrefs := State.refs_forInterface name
  rw [hr] at hrefs
  cases hrefs

namespace State

/-! ## Section 2: Changes -/

namespace Tracks

variable {s s' : State F} {c c' : Contents}

private theorem of_still (h : s.Tracks c) (hs : Still s s') : s'.Tracks c := by
  have hobj : ∀ id o', s'.obj id = some o' →
      ∃ o, s.obj id = some o ∧ o.born = o'.born ∧ o'.role.sized = o.role.sized := by
    intro id o' ho'
    have hborn := hs.born id
    rw [ho'] at hborn
    obtain ⟨o, ho, hsame⟩ := Option.map_eq_some_iff.mp hborn.symm
    refine ⟨o, ho, hsame, ?_⟩
    have hsized := hs.sized id
    rw [role, role, ho, ho'] at hsized
    exact Option.some.inj hsized
  refine { lt := ?lt, inj := ?inj, fresh := ?fresh, agrees := ?agrees, home := ?home }
  case lt =>
    intro id o' ho'
    obtain ⟨o, ho, hsame, _⟩ := hobj id o' ho'
    rw [hs.births, ← hsame]
    exact h.lt id o ho
  case inj =>
    intro id id' o' o'' ho' ho'' hborn
    obtain ⟨o, ho, hsame, _⟩ := hobj id o' ho'
    obtain ⟨o₂, ho₂, hsame₂, _⟩ := hobj id' o'' ho''
    exact h.inj id id' o o₂ ho ho₂ (hsame.trans (hborn.trans hsame₂.symm))
  case fresh =>
    intro b hb
    exact h.fresh b (hs.births ▸ hb)
  case agrees =>
    intro id o' ho'
    obtain ⟨o, ho, hsame, hsized⟩ := hobj id o' ho'
    rw [hs.births, ← hsame]
    exact (h.agrees id o ho).of_sized hsized
  case home =>
    intro id r b hrole hb
    have hsized := hs.sized id
    rw [hrole] at hsized
    obtain ⟨ρ, hρ, hsame⟩ := Option.map_eq_some_iff.mp hsized.symm
    have hviewport : s.role id = some (.viewport r) := by
      cases ρ with
      | viewport r' =>
          cases hsame
          exact hρ
      | _ => cases hsame
    obtain ⟨hlt, honly⟩ := h.home id r b hviewport hb
    refine ⟨hs.births ▸ hlt, ?_⟩
    intro j o' ho' hborn
    obtain ⟨o, ho, hsameb, _⟩ := hobj j o' ho'
    exact honly j o ho (hsameb.trans hborn)

/-- Some of the same objects, and as many there were. -/
theorem of_obj (h : s.Tracks c) (hobj : ∀ id o, s'.obj id = some o → s.obj id = some o)
    (hbirths : s'.births = s.births) : s'.Tracks c := by
  refine { lt := ?lt, inj := ?inj, fresh := ?fresh, agrees := ?agrees, home := ?home }
  case lt =>
    intro id o ho
    rw [hbirths]
    exact h.lt id o (hobj id o ho)
  case inj =>
    intro id id' o o' ho ho'
    exact h.inj id id' o o' (hobj id o ho) (hobj id' o' ho')
  case fresh =>
    intro b hb
    exact h.fresh b (hbirths ▸ hb)
  case agrees =>
    intro id o ho
    rw [hbirths]
    exact h.agrees id o (hobj id o ho)
  case home =>
    intro id r b hrole hb
    obtain ⟨o, ho, hρ⟩ := Option.map_eq_some_iff.mp hrole
    have hviewport : s.role id = some (.viewport r) := by
      rw [role, hobj id o ho, ← hρ]
      rfl
    obtain ⟨hlt, honly⟩ := h.home id r b hviewport hb
    exact ⟨hbirths ▸ hlt, fun j o ho => honly j o (hobj j o ho)⟩

theorem gone (h : s.Tracks c) (id : Id) : ((s.destroy id).deleteId id).Tracks c := by
  apply h.of_obj
  · intro j o ho
    rw [obj_deleteId, obj_destroy] at ho
    split at ho
    · cases ho
    · exact ho
  · unfold deleteId
    split <;> rfl

theorem ends (h : s.Tracks c) {id : Id} (he : Ends id s s') : s'.Tracks c := by
  cases he with
  | nothing hs =>
      rw [hs]
      exact h
  | gone _ hs =>
      rw [hs]
      exact h.gone id

/-- The role of one object changes, not to a viewport's, and what is known of it. -/
theorem adjustRole (h : s.Tracks c) {id : Id} {f : Role → Role}
    (hself : ∀ o, s.obj id = some o → c'.Agrees s.births o.born (f o.role))
    (hothers : ∀ j o, j ≠ id → s.obj j = some o → c'.Agrees s.births o.born o.role)
    (hfresh : ∀ b, s.births ≤ b → c'.Fresh b)
    (hviewport : ∀ ρ r, f ρ = .viewport r → ρ = .viewport r) : (s.adjustRole id f).Tracks c' := by
  have hobj : ∀ j o', (s.adjustRole id f).obj j = some o' →
      ∃ o, s.obj j = some o ∧ o.born = o'.born ∧ o'.role = if j = id then f o.role else o.role := by
    intro j o' ho'
    rw [obj_adjustRole] at ho'
    split at ho'
    · rename_i hj
      obtain ⟨o, ho, hsame⟩ := Option.map_eq_some_iff.mp ho'
      exact ⟨o, ho, by rw [← hsame], by rw [← hsame, if_pos hj]⟩
    · rename_i hj
      exact ⟨o', ho', rfl, by rw [if_neg hj]⟩
  refine { lt := ?lt, inj := ?inj, fresh := hfresh, agrees := ?agrees, home := ?home }
  case lt =>
    intro j o' ho'
    obtain ⟨o, ho, hsame, _⟩ := hobj j o' ho'
    rw [← hsame]
    exact h.lt j o ho
  case inj =>
    intro j j' o' o'' ho' ho'' hborn
    obtain ⟨o, ho, hsame, _⟩ := hobj j o' ho'
    obtain ⟨o₂, ho₂, hsame₂, _⟩ := hobj j' o'' ho''
    exact h.inj j j' o o₂ ho ho₂ (hsame.trans (hborn.trans hsame₂.symm))
  case agrees =>
    intro j o' ho'
    obtain ⟨o, ho, hsame, hrole⟩ := hobj j o' ho'
    rw [hrole, ← hsame]
    split
    · rename_i hj
      exact hself o (hj ▸ ho)
    · rename_i hj
      exact hothers j o hj ho
  case home =>
    intro j r b hrole hb
    obtain ⟨o', ho', hρ⟩ := Option.map_eq_some_iff.mp hrole
    obtain ⟨o, ho, _, hsame⟩ := hobj j o' ho'
    have hviewport' : s.role j = some (.viewport r) := by
      rw [hsame] at hρ
      rw [role, ho]
      split at hρ
      · exact congrArg some (hviewport _ r hρ)
      · exact congrArg some hρ
    obtain ⟨hlt, honly⟩ := h.home j r b hviewport' hb
    refine ⟨hlt, ?_⟩
    intro k o'' ho'' hborn
    obtain ⟨o₂, ho₂, hsame₂, _⟩ := hobj k o'' ho''
    exact honly k o₂ ho₂ (hsame₂.trans hborn)

/-- The role of one object changes, and not what is tracked of it. -/
theorem adjustRole_same (h : s.Tracks c) (id : Id) {f : Role → Role} (hf : ∀ ρ, (f ρ).sized = ρ.sized) :
    (s.adjustRole id f).Tracks c := by
  apply h.adjustRole
  · exact fun o ho => (h.agrees id o ho).of_sized (hf o.role)
  · exact fun j o _ ho => h.agrees j o ho
  · exact h.fresh
  · intro ρ r hr
    have hsized := hf ρ
    rw [hr] at hsized
    cases ρ with
    | viewport r' =>
        cases hsized
        rfl
    | _ => cases hsized

/-- An object gets a role of which nothing is tracked. -/
theorem setRole (h : s.Tracks c) {id : Id} (hnone : ∀ o, s.obj id = some o → c.buffers o.born = none)
    {role : Role} (hsized : role.sized = .none) : (s.adjustRole id fun _ => role).Tracks c := by
  apply h.adjustRole
  · intro o ho
    have hplain : c.Agrees s.births o.born .none :=
      ⟨(hnone o ho).symm, fun size hsize => (nomatch hsize), fun x hx => (nomatch hx),
        fun r hr => (nomatch hr)⟩
    exact hplain.of_sized hsized
  · exact fun j o _ ho => h.agrees j o ho
  · exact h.fresh
  · intro ρ r hr
    rw [hr] at hsized
    cases hsized

/-- One more object, of which what is known may be what its role says. -/
theorem create (h : s.Tracks c) {origin : Origin} {id : Id} {iface : Interface} {version : Nat}
    {kind : Kind} {role : Role} (hself : c'.Agrees (s.births + 1) s.births role)
    (hothers : ∀ o : Obj, o.born < s.births → c.Agrees s.births o.born o.role →
      c'.Agrees s.births o.born o.role)
    (hfresh : ∀ b, s.births < b → c'.Fresh b)
    (hviewport : ∀ r, role = .viewport r → r = s.ref r.id) :
    (s.create origin id iface version kind role).Tracks c' := by
  have hobj : ∀ j o, (s.create origin id iface version kind role).obj j = some o →
      (j = id ∧ o.born = s.births ∧ o.role = role) ∨ s.obj j = some o := by
    intro j o ho
    rw [obj_create] at ho
    split at ho
    · rename_i hj
      rw [← Option.some.inj ho]
      exact .inl ⟨hj, rfl, rfl⟩
    · exact .inr ho
  refine { lt := ?lt, inj := ?inj, fresh := hfresh, agrees := ?agrees, home := ?home }
  case lt =>
    intro j o ho
    show o.born < s.births + 1
    rcases hobj j o ho with ⟨_, hborn, _⟩ | ho
    · rw [hborn]
      exact Nat.lt_succ_self _
    · exact Nat.lt_succ_of_lt (h.lt j o ho)
  case inj =>
    intro j j' o o' ho ho' hborn
    rcases hobj j o ho with ⟨hj, hb, _⟩ | ho
    · rcases hobj j' o' ho' with ⟨hj', _, _⟩ | ho'
      · rw [hj, hj']
      · exact absurd (hborn.symm.trans hb) (ne_of_lt (h.lt j' o' ho'))
    · rcases hobj j' o' ho' with ⟨_, hb', _⟩ | ho'
      · exact absurd (hborn.trans hb') (ne_of_lt (h.lt j o ho))
      · exact h.inj j j' o o' ho ho' hborn
  case agrees =>
    intro j o ho
    show c'.Agrees (s.births + 1) o.born o.role
    rcases hobj j o ho with ⟨_, hborn, hrole⟩ | ho
    · rw [hborn, hrole]
      exact hself
    · exact (hothers o (h.lt j o ho) (h.agrees j o ho)).mono (Nat.le_succ _)
  case home =>
    intro j r b hrole hb
    obtain ⟨o, ho, hρ⟩ := Option.map_eq_some_iff.mp hrole
    -- Of the objects there were, by the old facts or by what the new one records.
    have hold : b < s.births ∧ ∀ k o', s.obj k = some o' → o'.born = b → k = r.id := by
      rcases hobj j o ho with ⟨_, _, hnew⟩ | ho
      · have hborn' : (s.ref r.id).born = some b := hviewport r (hnew.symm.trans hρ) ▸ hb
        obtain ⟨o', ho', hborn⟩ := Option.map_eq_some_iff.mp hborn'
        refine ⟨hborn ▸ h.lt _ o' ho', ?_⟩
        intro k o'' ho'' hb''
        exact h.inj k r.id o'' o' ho'' ho' (hb''.trans hborn.symm)
      · apply h.home j r b _ hb
        rw [State.role, ho]
        exact congrArg some hρ
    refine ⟨Nat.lt_succ_of_lt hold.1, ?_⟩
    intro k o' ho' hborn
    rcases hobj k o' ho' with ⟨_, hfreshborn, _⟩ | ho'
    · exact absurd (hborn.symm.trans hfreshborn) (ne_of_lt hold.1)
    · exact hold.2 k o' ho' hborn

/-- One more object, of which nothing is known. -/
theorem create_fresh (h : s.Tracks c) {origin : Origin} {id : Id} {iface : Interface} {version : Nat}
    {kind : Kind} {role : Role} (hself : c.Agrees (s.births + 1) s.births role)
    (hviewport : ∀ r, role ≠ .viewport r) :
    (s.create origin id iface version kind role).Tracks c :=
  h.create hself (fun _ _ hagrees => hagrees) (fun b hb => h.fresh b (le_of_lt hb))
    fun r hr => absurd hr (hviewport r)

theorem createForwarded (h : s.Tracks c) {id : Id} {iface : Interface} {version : Nat} {up : ObjectId}
    {role : Role} (hself : c.Agrees (s.births + 1) s.births role) (hviewport : ∀ r, role ≠ .viewport r) :
    (s.createForwarded id iface version up role).Tracks c := by
  have hcreated : (s.create .bridge id iface version (.upstream (some up)) role).Tracks c :=
    h.create_fresh hself hviewport
  exact hcreated.of_obj (fun _ _ ho => ho) rfl

/-- One more object, and its size. -/
theorem create_sized (h : s.Tracks c) {origin : Origin} {id : Id} {iface : Interface} {version : Nat}
    {kind : Kind} {role : Role} {size : Option (Int × Int)}
    (hself : (c.sized s.births size).Agrees (s.births + 1) s.births role)
    (hviewport : ∀ r, role ≠ .viewport r) :
    (s.create origin id iface version kind role).Tracks (c.sized s.births size) :=
  h.create hself (fun _ hlt hagrees => hagrees.sized hlt size)
    (fun b hb => (h.fresh b (le_of_lt hb)).sized hb size) fun r hr => absurd hr (hviewport r)

/-- One more object, a viewport. -/
theorem create_viewport (h : s.Tracks c) {origin : Origin} {id : Id} {iface : Interface}
    {version : Nat} {kind : Kind} {r : Ref} (hr : r = s.ref r.id) :
    (s.create origin id iface version kind (.viewport r)).Tracks
      (c.apply (.newViewport s.births r.born)) := by
  have hfresh := h.fresh s.births le_rfl
  apply h.create
  · refine ⟨hfresh.buffer.symm, fun size hsize => (nomatch hsize), fun x hx => (nomatch hx), ?_⟩
    intro r' hr'
    cases hr'
    exact Function.update_self _ _ _
  · intro o hlt hagrees
    refine ⟨hagrees.buffer, hagrees.params, hagrees.surface, ?_⟩
    intro r' hr'
    exact (Function.update_of_ne (ne_of_lt hlt) _ _).trans (hagrees.viewport r' hr')
  · intro b hb
    have hlater := h.fresh b (le_of_lt hb)
    exact ⟨hlater.surface, hlater.buffer, hlater.params⟩
  · intro r' hr'
    cases hr'
    exact hr

/-- The state of a surface changes, and its content as much. -/
theorem adjustSurface (h : s.Tracks c) {id : Id} {o : Obj} (ho : s.obj id = some o)
    {f : Surface → Surface} {g : Content → Content} (hfg : ∀ x, (f x).content c = g (x.content c))
    (hbuffers : ∀ x, ∀ r ∈ (f x).buffers, r ∈ x.buffers ∨ r = s.ref r.id) :
    (s.adjustSurface id f).Tracks (c.adjust o.born g) := by
  have hother : ∀ b, b ≠ o.born → (c.adjust o.born g).surfaces b = c.surfaces b :=
    fun b hb => Function.update_of_ne hb _ _
  apply h.adjustRole
  · intro o' ho'
    cases ho.symm.trans ho'
    have hagrees := h.agrees id o ho
    cases hρ : o.role with
    | surface x =>
        rw [hρ] at hagrees
        obtain ⟨hcontent, hgiven⟩ := hagrees.surface x rfl
        refine ⟨hagrees.buffer, fun size hsize => (nomatch hsize), ?_, fun r hr => (nomatch hr)⟩
        intro y hy
        cases hy
        refine ⟨?_, ?_⟩
        · show Function.update c.surfaces o.born (g (c.surfaces o.born)) o.born = (f x).content c
          rw [Function.update_self, hfg, hcontent]
        · intro r hr b hb
          rcases hbuffers x r hr with hr | hr
          · exact hgiven r hr b hb
          · rw [hr] at hb
            obtain ⟨o', ho', hborn⟩ := Option.map_eq_some_iff.mp hb
            exact hborn ▸ h.lt _ o' ho'
    | _ =>
        rw [hρ] at hagrees
        exact ⟨hagrees.buffer, hagrees.params, fun x hx => (nomatch hx), hagrees.viewport⟩
  · intro j o' hj ho'
    have hne : o'.born ≠ o.born := fun hborn => hj (h.inj j id o' o ho' ho hborn)
    have hagrees := h.agrees j o' ho'
    refine ⟨hagrees.buffer, hagrees.params, ?_, hagrees.viewport⟩
    intro x hx
    rw [hother _ hne]
    exact hagrees.surface x hx
  · intro b hb
    have hne : b ≠ o.born := ne_of_gt (lt_of_lt_of_le (h.lt id o ho) hb)
    have hfresh := h.fresh b hb
    exact ⟨(hother b hne).trans hfresh.surface, hfresh.buffer, hfresh.params⟩
  · intro ρ r hr
    cases ρ <;> first | exact hr | cases hr

/-- The content changes of a surface that is gone. -/
theorem adjust_gone (h : s.Tracks c) {b : Nat} (hlt : b < s.births)
    (hgone : ∀ j o, s.obj j = some o → o.born ≠ b) (g : Content → Content) : s.Tracks (c.adjust b g) := by
  have hother : ∀ b', b' ≠ b → (c.adjust b g).surfaces b' = c.surfaces b' :=
    fun b' hb' => Function.update_of_ne hb' _ _
  refine ⟨h.lt, h.inj, ?_, ?_, h.home⟩
  · intro b' hb'
    have hfresh := h.fresh b' hb'
    exact ⟨(hother b' (ne_of_gt (lt_of_lt_of_le hlt hb'))).trans hfresh.surface, hfresh.buffer,
      hfresh.params⟩
  · intro j o ho
    have hagrees := h.agrees j o ho
    refine ⟨hagrees.buffer, hagrees.params, ?_, hagrees.viewport⟩
    intro x hx
    rw [hother _ (hgone j o ho)]
    exact hagrees.surface x hx

/-- A viewport whose surface's id does not denote another surface sets its destination. -/
theorem setDestination (h : s.Tracks c) {id : Id} {o : Obj} (ho : s.obj id = some o) {r : Ref}
    (hrole : o.role = .viewport r) (hdenotes : s.Denotes r) (size : Option (Int × Int)) :
    (s.setDestination id size).Tracks (c.apply (.destination o.born size)) := by
  have hρ : s.role id = some (.viewport r) := by
    rw [role, ho]
    exact congrArg some hrole
  have hviewport := (h.agrees id o ho).viewport r hrole
  unfold State.setDestination Contents.apply
  dsimp only
  rw [hρ, hviewport]
  dsimp only
  cases hsurface : s.obj r.id with
  | some o' =>
      have hborn := hdenotes o' hsurface
      rw [hborn]
      exact h.adjustSurface hsurface (fun _ => rfl) fun _ _ hr => .inl hr
  | none =>
      have hsame : ∀ j o', (s.adjustSurface r.id fun x => { x with pendingDestination := some size }).obj j =
          some o' → s.obj j = some o' := by
        intro j o' ho'
        unfold State.adjustSurface at ho'
        rw [obj_adjustRole] at ho'
        split at ho'
        · rename_i hj
          rw [hj, hsurface] at ho'
          cases ho'
        · exact ho'
      cases hb : r.born with
      | none => exact h.of_obj hsame rfl
      | some b =>
          -- The surface is gone, and no object has its serial number.
          obtain ⟨hlt, honly⟩ := h.home id r b hρ hb
          have hgone : ∀ j o', s.obj j = some o' → o'.born ≠ b := by
            intro j o' ho' hborn
            rw [honly j o' ho' hborn, hsurface] at ho'
            cases ho'
          exact (h.adjust_gone hlt hgone _).of_obj hsame rfl

end Tracks

/-! ## Section 3: Bookkeeping Before a Request -/

private theorem tracks_attach {s : State F} {c : Contents} (h : s.Tracks c) {sender : Id} {o : Obj}
    (ho : s.obj sender = some o) {buffer : Option Ref} (hbuffer : ∀ r ∈ buffer, r = s.ref r.id) :
    (s.adjustSurface sender fun x => { x with pendingAttach := some buffer }).Tracks
      (c.apply (.attach o.born (buffer.bind Ref.born))) := by
  apply h.adjustSurface ho (g := fun x =>
    { x with pendingBuffer := some ((buffer.bind Ref.born).bind c.buffers) })
  · intro x
    rw [Option.bind_assoc]
    rfl
  · intro x r hr
    simp only [Surface.buffers, List.mem_append, Option.mem_toList, Option.join_some] at hr ⊢
    rcases hr with hr | hr
    · exact .inl (.inl hr)
    · exact .inr (hbuffer r hr)

private theorem content_commit (x : Surface) (c : Contents) : (x.content c).commit = x.commit.content c := by
  unfold Surface.commit Surface.content Content.commit
  cases x.pendingAttach <;> rfl

private theorem tracks_commit {s : State F} {c : Contents} (h : s.Tracks c) {sender : Id} {o : Obj}
    (ho : s.obj sender = some o) {x : Surface} (hrole : o.role = .surface x) :
    (s.commitSurface sender).1.Tracks (c.apply (.commit o.born)) := by
  have hsurface : s.role sender = some (.surface x) := by
    rw [role, ho]
    exact congrArg some hrole
  unfold commitSurface
  rw [hsurface]
  apply h.adjustSurface ho
  · exact fun y => (content_commit y c).symm
  · intro y r hr
    left
    revert hr
    unfold Surface.commit Surface.buffers
    cases y.pendingAttach with
    | none => exact id
    | some b =>
        intro hr
        apply List.mem_append_right
        simpa using hr

/-- The changes that the proxy tracks before it passes a request on. -/
theorem tracks_beforeRequest {s : State F} {c : Contents} (h : s.Tracks c) {sender : Id} {o : Obj}
    (ho : s.obj sender = some o) {request : String} {args : List BridgeArg}
    (hok : ∀ op ∈ s.changeOp o request args, OpOk (s, c) op o.role) :
    (s.beforeRequest E sender o.iface.name request args).1.Tracks
      ((s.changeOp o request args).toList.foldl Contents.apply c) := by
  unfold changeOp at hok ⊢
  generalize o.iface.name = iface at hok ⊢
  unfold beforeRequest
  split
  -- `wl_surface.attach`
  case h_1 =>
    dsimp only
    split
    · exact tracks_attach h ho fun r hr => Option.some.inj hr ▸ rfl
    · exact tracks_attach h ho fun r hr => (nomatch hr)
  -- `wl_surface.set_buffer_scale`
  case h_2 =>
    dsimp only
    show State.Tracks _ (c.adjust o.born fun x => { x with pendingScale := some (max (int args 0) 1) })
    apply h.adjustSurface ho
    · intro x
      rfl
    · exact fun _ _ hr => .inl hr
  -- `wl_surface.commit`
  case h_3 =>
    have hcommitted : ∃ x, o.role = .surface x := by
      have hop := hok _ rfl
      cases hρ : o.role with
      | surface x => exact ⟨x, rfl⟩
      | _ =>
          rw [hρ] at hop
          exact hop.elim
    obtain ⟨x, hx⟩ := hcommitted
    have hcommit := tracks_commit h ho hx
    dsimp only
    split
    · exact hcommit.of_still (Still.redrawn _ _ _)
    · exact hcommit
  -- `wp_viewport.set_destination` and `wp_viewport.destroy`
  case h_4 | h_5 =>
    have hviewport : ∃ r, o.role = .viewport r ∧ s.Denotes r := by
      have hop := hok _ rfl
      cases hρ : o.role with
      | viewport r =>
          rw [hρ] at hop
          exact ⟨r, rfl, hop⟩
      | _ =>
          rw [hρ] at hop
          exact hop.elim
    obtain ⟨r, hr, hdenotes⟩ := hviewport
    exact h.setDestination ho hr hdenotes _
  -- `zwp_linux_buffer_params_v1.create`
  case h_6 =>
    have hother : ∀ b, b ≠ o.born → Function.update c.params o.born (some (int args 0, int args 1)) b =
        c.params b := fun b hb => Function.update_of_ne hb _ _
    dsimp only
    show State.Tracks _ (c.apply (.newParams o.born _))
    apply h.adjustRole
    · intro o' ho'
      cases ho.symm.trans ho'
      have hagrees := h.agrees sender o ho
      cases hρ : o.role with
      | bufferParams size =>
          rw [hρ] at hagrees
          refine ⟨hagrees.buffer, ?_, fun x hx => (nomatch hx), fun r hr => (nomatch hr)⟩
          intro size hsize
          rw [← Role.bufferParams.inj hsize]
          exact Function.update_self _ _ _
      | _ =>
          rw [hρ] at hagrees
          exact ⟨hagrees.buffer, fun size hsize => (nomatch hsize), hagrees.surface, hagrees.viewport⟩
    · intro j o' hj ho'
      have hne : o'.born ≠ o.born := fun hborn => hj (h.inj j sender o' o ho' ho hborn)
      have hagrees := h.agrees j o' ho'
      refine ⟨hagrees.buffer, ?_, hagrees.surface, hagrees.viewport⟩
      intro size hsize
      exact (hother _ hne).trans (hagrees.params size hsize)
    · intro b hb
      have hne : b ≠ o.born := ne_of_gt (lt_of_lt_of_le (h.lt sender o ho) hb)
      have hfresh := h.fresh b hb
      exact ⟨hfresh.surface, hfresh.buffer, (hother b hne).trans hfresh.params⟩
    · intro ρ r hr
      cases ρ <;> first | exact hr | cases hr
  case h_16 hattach hscale hcommit hset hdestroy hcreate _ _ _ _ _ _ _ _ _ =>
    split
    · exact (hattach rfl rfl).elim
    · exact (hscale rfl rfl).elim
    · exact (hcommit rfl rfl).elim
    · exact (hset rfl rfl).elim
    · exact (hdestroy rfl rfl).elim
    · exact (hcreate rfl rfl).elim
    · exact h
  -- `xdg_surface.set_window_geometry`
  case h_7 =>
    apply h.of_still
    dsimp only
    split
    · apply Still.adjustFrame
      intro f
      exact ⟨rfl, rfl⟩
    · exact Still.refl s
  -- `xdg_surface.get_popup` and `xdg_popup.reposition`
  case h_8 | h_9 => exact h.of_still (still_offsetPositioner _ _ _)
  -- `xdg_toplevel.set_title`
  case h_12 =>
    apply h.of_still
    dsimp only
    apply (Still.redrawn _ _ _).trans
    apply still_adjustRole_same
    intro r
    cases r <;> exact ⟨rfl, rfl, rfl⟩
  -- `xdg_toplevel.destroy`
  case h_15 => exact h.of_still (Still.eraseFrame _ _)
  all_goals
    apply h.of_still
    dsimp only
    apply still_adjustRole_same
    intro r
    cases r <;> exact ⟨rfl, rfl, rfl⟩

/-! ## Section 4: What Requests Create -/

/-- What is recorded after a request, when it makes nothing sized. -/
theorem tracks_apply {s : State F} {c : Contents} (h : s.Tracks c) (sender : Id) {child : Option Id}
    (hnone : ∀ id ∈ child, ∀ o, s.obj id = some o → c.buffers o.born = none) {after : After}
    (hbuffer : ∀ w h, after ≠ .buffer w h) (hviewport : ∀ surface, after ≠ .viewport surface) :
    (s.apply sender child after).Tracks c := by
  have hset : ∀ {t : State F}, t.Tracks c → (∀ id, (t.obj id).map Obj.born = (s.obj id).map Obj.born) →
      ∀ {role : Role}, role.sized = .none → (t.setChildRole child role).Tracks c := by
    intro t ht hborn role hsized
    cases child with
    | none => exact ht
    | some id =>
        apply ht.setRole _ hsized
        intro o ho
        have hsame := hborn id
        rw [ho] at hsame
        obtain ⟨o', ho', hborn'⟩ := Option.map_eq_some_iff.mp hsame.symm
        rw [← hborn']
        exact hnone id rfl o' ho'
  -- A request that makes no buffer and no viewport.
  cases after with
  | nothing => exact h
  | buffer w h' => exact absurd rfl (hbuffer w h')
  | viewport surface => exact absurd rfl (hviewport surface)
  | reposition positioner offset => exact h.of_still (still_restorePositioner _ _ _)
  | xdgOutput output => exact hset h (fun _ => rfl) rfl
  | xdgSurface surface => exact hset h (fun _ => rfl) rfl
  | popup parent positioner offset =>
      have hrestored := s.still_restorePositioner positioner offset
      exact hset (h.of_still hrestored) hrestored.born rfl
  | toplevel =>
      cases child with
      | none => exact h
      | some id =>
          apply hset _ _ rfl
          · apply h.adjustRole_same
            intro ρ
            cases ρ <;> rfl
          · intro j
            rw [obj_adjustRole]
            split
            · cases s.obj j <;> rfl
            · rfl

/-- The object a request creates, of which nothing is known. -/
theorem tracks_createChild {s : State F} {c : Contents} (h : s.Tracks c) (child : Option (Id × String))
    (version : Nat) (sent : Option ObjectId) : (s.createChild E child version sent).Tracks c := by
  have hfresh := h.fresh s.births le_rfl
  unfold createChild
  split
  · exact h
  · dsimp only
    split
    · exact h.createForwarded (hfresh.agrees_forInterface _) (forInterface_ne_viewport _)
    · apply h.create_fresh
      · exact hfresh.agrees rfl (fun size hsize => (nomatch hsize)) (fun x hx => (nomatch hx))
          fun r hr => (nomatch hr)
      · exact fun r hr => (nomatch hr)

/-- An object that gets its role when it was created. -/
theorem obj_create_setRole (s : State F) (origin : Origin) (id : Id) (iface : Interface)
    (version : Nat) (kind : Kind) (first role : Role) (j : Id) :
    ((s.create origin id iface version kind first).adjustRole id fun _ => role).obj j =
      (s.create origin id iface version kind role).obj j := by
  rw [obj_adjustRole, obj_create, obj_create]
  split <;> rfl

/-- The object a request creates, with the role that is recorded of it. -/
theorem tracks_setChildRole {s : State F} {c' : Contents} {child : Id × String} {version : Nat}
    {role : Role}
    (h : ∀ iface kind, (s.create .bridge child.1 iface version kind role).Tracks c')
    (sent : Option ObjectId) :
    ((s.createChild E (some child) version sent).setChildRole (some child.1) role).Tracks c' := by
  unfold createChild setChildRole
  dsimp only
  cases sent with
  | some up =>
      apply (h (E.table child.2) (.upstream (some up))).of_obj
      · intro j o ho
        rw [← obj_create_setRole]
        exact ho
      · rfl
  | none =>
      apply (h (E.table child.2) (.upstream none)).of_obj
      · intro j o ho
        rw [← obj_create_setRole]
        exact ho
      · rfl

/-- What a request makes that has a size, or is for something that has: a buffer, a
viewport, or neither. -/
theorem creation_cases (s : State F) (sender : Id) (o : Obj) (request : String)
    (args : List BridgeArg) :
    (∃ size : Int × Int, s.creationOp o request args = some (.newBuffer s.births size) ∧
        s.afterRequest E sender o.iface.name request args = .buffer size.1 size.2 ∧
        s.beforeRequest E sender o.iface.name request args = (s, args, true) ∧
        s.changeOp o request args = none) ∨
      (∃ surface, s.creationOp o request args =
          some (.newViewport s.births ((s.obj surface).map Obj.born)) ∧
        s.afterRequest E sender o.iface.name request args = .viewport surface ∧
        s.beforeRequest E sender o.iface.name request args = (s, args, true) ∧
        s.changeOp o request args = none) ∨
      s.creationOp o request args = none ∧ ∀ (t : State F) (args' : List BridgeArg),
        (∀ w h, t.afterRequest E sender o.iface.name request args' ≠ .buffer w h) ∧
          ∀ surface, t.afterRequest E sender o.iface.name request args' ≠ .viewport surface := by
  unfold creationOp afterRequest changeOp beforeRequest
  generalize o.iface.name = iface
  split
  · exact .inl ⟨(int args 2, int args 3), rfl, rfl, rfl, rfl⟩
  · exact .inl ⟨(int args 1, int args 2), rfl, rfl, rfl, rfl⟩
  · exact .inr (.inl ⟨uint args 1, rfl, rfl, rfl, rfl⟩)
  · rename_i hbuffer himmed hviewport
    right
    right
    refine ⟨rfl, fun t args' => ?_⟩
    split
    · exact (hbuffer rfl rfl).elim
    · exact (himmed rfl rfl).elim
    · exact (hviewport rfl rfl).elim
    all_goals exact ⟨fun _ _ h => (nomatch h), fun _ h => (nomatch h)⟩

/-- A request creates an object exactly when it has an id for one. -/
theorem child_of_translate {s : State F} {iface : String} {desc : MessageDesc} {args : List BridgeArg}
    {types : List ArgType} {expected : List String} {out : Outgoing} (htyped : wellTyped args types)
    (h : s.translate iface desc args types expected = .ok out) :
    out.child.isSome = args.any Arg.isNewId := by
  induction args generalizing types expected out with
  | nil =>
      unfold translate at h
      cases h
      rfl
  | cons a args ih =>
      cases types with
      | nil => cases htyped
      | cons ty types =>
          have hrest : wellTyped args types := (Bool.and_eq_true_iff.mp htyped).2
          cases a with
          | object up =>
              unfold translate at h
              split at h
              · split at h
                · cases h
                · obtain ⟨out', htranslate, h⟩ := bind_eq_ok h
                  cases h
                  have hsame := ih hrest htranslate
                  exact hsame
              split at h
              · cases h
              · split at h
                · dsimp only at h
                  split at h
                  · cases h
                  · obtain ⟨out', htranslate, h⟩ := bind_eq_ok h
                    cases h
                    have hsame := ih hrest htranslate
                    exact hsame
                · cases h
          | newId child =>
              unfold translate at h
              obtain ⟨_, _, h⟩ := bind_eq_ok h
              split at h
              · cases h
              · obtain ⟨out', _, h⟩ := bind_eq_ok h
                cases h
                cases hlater : out'.child <;> simp [Arg.isNewId]
          | int _ | uint _ | fixed _ | str _ | array _ | fd _ =>
              unfold translate at h
              obtain ⟨out', htranslate, h⟩ := bind_eq_ok h
              cases h
              have hsame := ih hrest htranslate
              exact hsame

private theorem tracks_complete {s : State F} {c' : Contents} {obj : Obj} {desc : MessageDesc}
    {up : Option ObjectId} {sender : Id} {answer : Answer} {after : After} {out : Outgoing}
    (h : ∀ (t : State F) (sent : Option ObjectId), Still s t →
      ((t.createChild E out.child obj.version sent).apply sender (out.child.map Prod.fst) after).Tracks c') :
    (s.complete E obj desc up sender answer after out).Tracks c' := by
  unfold complete
  generalize (if out.dead then none else up.bind fun _ => answer.sent) = sent
  have happlied := h _ sent (s.still_pass up sent desc.name out.args)
  dsimp only
  split
  · exact happlied.gone sender
  · exact happlied

/-- The objects there are once a request has created one. -/
theorem born_createChild (s : State F) (child : Id × String) (version : Nat) (sent : Option ObjectId)
    (j : Id) : ((s.createChild E (some child) version sent).obj j).map Obj.born =
      if j = child.1 then some s.births else (s.obj j).map Obj.born := by
  have hcreated : ∀ iface kind role,
      ((s.create .bridge child.1 iface version kind role).obj j).map Obj.born =
        if j = child.1 then some s.births else (s.obj j).map Obj.born := by
    intro iface kind role
    rw [obj_create]
    split <;> rfl
  unfold createChild
  cases sent with
  | none => exact hcreated _ _ _
  | some up => exact hcreated _ _ _

/-- A request that is passed on, and what it changes and creates. -/
theorem tracks_forward {s s' : State F} {c : Contents} (h : s.Tracks c) {o : Obj} {desc : MessageDesc}
    {up : Option ObjectId} {m : Request} {answer : Answer} (ho : s.obj m.sender = some o)
    (htyped : wellTyped m.args desc.signature)
    (hchange : ∀ op ∈ s.changeOp o desc.name m.args, OpOk (s, c) op o.role)
    (hcreation : m.args.any Arg.isNewId → ∀ op ∈ s.creationOp o desc.name m.args, OpOk (s, c) op o.role)
    (hforward : s.forward E o desc up m answer = .ok s') :
    s'.Tracks (((s.changeOp o desc.name m.args).toList ++ if m.args.any Arg.isNewId then
      (s.creationOp o desc.name m.args).toList else []).foldl Contents.apply c) := by
  have hbefore := tracks_beforeRequest (E := E) h ho hchange
  unfold forward at hforward
  dsimp only at hforward
  rcases s.creation_cases (E := E) m.sender o desc.name m.args with
    ⟨size, hop, hafter, hsame, hnone⟩ | ⟨surface, hop, hafter, hsame, hnone⟩ | ⟨hop, hplain⟩
  · rw [hsame] at hforward
    obtain ⟨out, htranslate, hforward⟩ := bind_eq_ok hforward
    cases hforward
    rw [hafter, hnone, hop, ← child_of_translate htyped htranslate]
    apply tracks_complete
    intro t sent hstill
    cases out.child with
    | none => exact h.of_still hstill
    | some child =>
        apply tracks_setChildRole
        intro iface kind
        rw [← hstill.births]
        exact (h.of_still hstill).create_sized (Contents.agrees_buffer size) fun r hr => (nomatch hr)
  · rw [hsame] at hforward
    obtain ⟨out, htranslate, hforward⟩ := bind_eq_ok hforward
    cases hforward
    have hchild := child_of_translate htyped htranslate
    rw [hafter, hnone, hop, ← hchild]
    apply tracks_complete
    intro t sent hstill
    cases hout : out.child with
    | none => exact h.of_still hstill
    | some child =>
        rw [hout] at hchild
        -- The surface is there, and so it is not the new object.
        have hsurface := hcreation hchild.symm _ hop
        have hne : surface ≠ child.1 := by
          intro hsurf
          obtain ⟨_, hnew⟩ := newId_of_translate htranslate hout
          obtain ⟨_, _, hfree⟩ := checkNewId_eq_ok.mp hnew
          rw [OpOk, hsurf, hfree] at hsurface
          cases hsurface
        show ((t.createChild E (some child) o.version sent).setChildRole (some child.1)
          (.viewport ((t.createChild E (some child) o.version sent).ref surface))).Tracks _
        have href : (t.createChild E (some child) o.version sent).ref surface = t.ref surface := by
          unfold ref
          rw [born_createChild, if_neg hne]
        rw [href]
        apply tracks_setChildRole
        intro iface kind
        have hviewport : (t.create .bridge child.1 iface o.version kind (.viewport (t.ref surface))).Tracks
            (c.apply (.newViewport t.births (t.ref surface).born)) :=
          (h.of_still hstill).create_viewport rfl
        rw [hstill.births, hstill.ref] at hviewport
        rw [hstill.ref]
        exact hviewport
  · rw [hop, Option.toList_none, ite_self, List.append_nil]
    split at hforward
    · cases hforward
      exact hbefore
    · obtain ⟨out, htranslate, hforward⟩ := bind_eq_ok hforward
      cases hforward
      apply tracks_complete
      intro t sent hstill
      have ht := hbefore.of_still hstill
      have hafter := hplain (s.beforeRequest E m.sender o.iface.name desc.name m.args).1
        (s.beforeRequest E m.sender o.iface.name desc.name m.args).2.1
      apply tracks_apply (tracks_createChild ht _ _ _) _ _ hafter.1 hafter.2
      intro id hid o' ho'
      obtain ⟨child, hchild, hfst⟩ := Option.map_eq_some_iff.mp hid
      rw [hchild] at ho'
      have hborn := t.born_createChild (E := E) child o.version sent id
      rw [ho', if_pos hfst.symm] at hborn
      have hbirths : o'.born = t.births := Option.some.inj hborn
      rw [hbirths]
      exact (ht.fresh t.births le_rfl).buffer

/-- An object of which nothing is known is created. -/
theorem Tracks.plain {s : State F} {c : Contents} (h : s.Tracks c) {role : Role}
    (hsized : role.sized = .none) : c.Agrees (s.births + 1) s.births role := by
  have hfresh := h.fresh s.births le_rfl
  have hnone : c.Agrees (s.births + 1) s.births .none :=
    hfresh.agrees rfl (fun size hsize => (nomatch hsize)) (fun x hx => (nomatch hx)) fun r hr => (nomatch hr)
  exact hnone.of_sized hsized

private theorem tracks_displayRequest {s s' : State F} {c : Contents} (h : s.Tracks c) {desc : MessageDesc}
    {m : Request} {answer : Answer} (hrequest : s.displayRequest E desc m answer = .ok s') :
    s'.Tracks c := by
  unfold displayRequest at hrequest
  split at hrequest
  · obtain ⟨_, _, hrequest⟩ := bind_eq_ok hrequest
    split at hrequest
    · cases hrequest
    · split at hrequest
      · cases hrequest
      · have hcreated : ∀ id name up, (s.createForwarded id (E.table name) 1 up
            (Role.forInterface (E.table name).name)).Tracks c := fun _ name _ =>
          h.createForwarded ((h.fresh s.births le_rfl).agrees_forInterface _)
            (forInterface_ne_viewport (E.table name).name)
        dsimp only at hrequest
        split at hrequest
        · cases hrequest
          exact (hcreated _ _ _).of_still (Still.note _ rfl)
        · cases hrequest
          exact hcreated _ _ _
  · cases hrequest

private theorem tracks_bind {s s' : State F} {c : Contents} (h : s.Tracks c) {m : Request}
    {registry : Option ObjectId} {answer : Answer} (hrequest : s.bind E m registry answer = .ok s') :
    s'.Tracks c := by
  have hfresh := h.fresh s.births le_rfl
  have hbound : ∀ iface name, c.Agrees (s.births + 1) s.births (boundRole iface name) := by
    intro iface name
    unfold boundRole
    split
    · exact h.plain rfl
    · exact hfresh.agrees_forInterface iface
  have hviewport : ∀ iface name r, boundRole iface name ≠ .viewport r := by
    intro iface name r hr
    have hrefs := refs_boundRole iface name
    rw [hr] at hrefs
    cases hrefs
  unfold bind at hrequest
  split at hrequest
  · obtain ⟨_, _, hrequest⟩ := bind_eq_ok hrequest
    dsimp only at hrequest
    split at hrequest
    · split at hrequest
      · cases hrequest
      · cases hrequest
        exact h.create_fresh (h.plain rfl) fun r hr => (nomatch hr)
    · split at hrequest
      · cases hrequest
      · split at hrequest
        · cases hrequest
        · split at hrequest
          · cases hrequest
            exact h.createForwarded (hbound _ _) (hviewport _ _)
          · cases hrequest
  · cases hrequest

private theorem tracks_managerRequest {s s' : State F} {c : Contents} (h : s.Tracks c) {m : Request}
    (hrequest : s.managerRequest E m = .ok s') : s'.Tracks c := by
  unfold managerRequest at hrequest
  split at hrequest
  · cases hrequest
    exact h.gone m.sender
  · obtain ⟨_, _, hrequest⟩ := bind_eq_ok hrequest
    split at hrequest
    · cases hrequest
      exact h.create_fresh (h.plain rfl) fun r hr => (nomatch hr)
    · cases hrequest
  · cases hrequest

private theorem tracks_decorationRequest {s s' : State F} {c : Contents} (h : s.Tracks c) {m : Request}
    {toplevel : Id} {answer : Answer} (hrequest : s.decorationRequest E m toplevel answer = .ok s') :
    s'.Tracks c := by
  unfold decorationRequest at hrequest
  split at hrequest
  · cases hrequest
    exact (h.of_still (s.still_removeFrame toplevel)).gone m.sender
  · split at hrequest
    · cases hrequest
      exact h.of_still (s.still_setMode _ _ _ _)
    · cases hrequest
  · cases hrequest
    exact h.of_still (s.still_setMode _ _ _ _)
  · cases hrequest

private theorem sizeOps_request {s : State F} {o : Obj} {desc : MessageDesc} {up : Option ObjectId}
    {m : Request} (ho : s.obj m.sender = some o) (hdesc : o.iface.requests[m.opcode]? = some desc)
    (hkind : o.kind = .upstream up) (answer : Answer) :
    s.sizeOps (.request m answer) = (s.changeOp o desc.name m.args).toList ++
      if m.args.any Arg.isNewId then (s.creationOp o desc.name m.args).toList else [] := by
  unfold sizeOps
  dsimp only
  rw [ho]
  dsimp only
  rw [hdesc, hkind]

/-- A commit is a request of the surface. -/
theorem commit_mem_sizeOps {s : State F} {o : Obj} {m : Request} {answer : Answer} {b : Nat}
    (ho : s.obj m.sender = some o) (hcommit : .commit b ∈ s.sizeOps (.request m answer)) :
    b = o.born := by
  unfold sizeOps at hcommit
  dsimp only at hcommit
  rw [ho] at hcommit
  dsimp only at hcommit
  split at hcommit
  · rcases List.mem_append.mp hcommit with hchange | hcreation
    · have hchange := Option.mem_toList.mp hchange
      unfold changeOp at hchange
      split at hchange <;> cases hchange
      rfl
    · split at hcreation
      · have hcreation := Option.mem_toList.mp hcreation
        unfold creationOp at hcreation
        split at hcreation <;> cases hcreation
      · cases hcreation
  · cases hcommit

private theorem sizeOps_other {s : State F} {o : Obj} {m : Request} (ho : s.obj m.sender = some o)
    (hkind : ∀ up, o.kind ≠ .upstream up) (answer : Answer) : s.sizeOps (.request m answer) = [] := by
  unfold sizeOps
  dsimp only
  rw [ho]
  dsimp only
  split
  · rename_i up _ hup _
    exact absurd hup (hkind up)
  · rfl

theorem Tracks.request {s s' : State F} {c : Contents} (h : s.Tracks c) {m : Request} {answer : Answer}
    (hok : SizeOk (s, c) (.request m answer)) (hrequest : s.request E m answer = .ok s') :
    s'.Tracks ((s.sizeOps (.request m answer)).foldl Contents.apply c) := by
  unfold State.request at hrequest
  split at hrequest
  · cases hrequest
  rename_i o ho
  split at hrequest
  · cases hrequest
  rename_i desc hdesc
  split at hrequest
  · cases hrequest
  rename_i htyped
  split at hrequest
  · cases hrequest
  split at hrequest
  · rename_i hkind
    rw [sizeOps_other ho (by simp [hkind])]
    exact tracks_displayRequest h hrequest
  · rename_i hkind
    rw [sizeOps_other ho (by simp [hkind])]
    exact tracks_managerRequest h hrequest
  · rename_i hkind
    rw [sizeOps_other ho (by simp [hkind])]
    exact tracks_decorationRequest h hrequest
  · rename_i up hkind
    rw [sizeOps_request ho hdesc hkind]
    split at hrequest
    · rename_i hregistry
      -- A registry has no content.
      unfold changeOp creationOp
      rw [hregistry]
      simpa using tracks_bind h hrequest
    · have hop : ∀ op ∈ (s.changeOp o desc.name m.args).toList ++
          (if m.args.any Arg.isNewId then (s.creationOp o desc.name m.args).toList else []),
          OpOk (s, c) op o.role := by
        intro op hop
        apply hok op
        · rw [sizeOps_request ho hdesc hkind]
          exact hop
        · rw [role, ho]
          rfl
      apply tracks_forward h ho (by simpa using htyped) _ _ hrequest
      · intro op hmem
        apply hop
        exact List.mem_append_left _ (Option.mem_toList.mpr hmem)
      · intro hany op hmem
        apply hop
        rw [if_pos hany]
        exact List.mem_append_right _ (Option.mem_toList.mpr hmem)

/-! ## Section 5: Events -/

theorem Tracks.serve {s : State F} {c : Contents} (h : s.Tracks c) (iface : Interface) (version : Nat)
    (up : Option ObjectId) :
    ({ s with nextServerId := s.nextServerId + 1 }.create .compositor s.nextServerId iface version
      (.upstream up) (Role.forInterface iface.name)).Tracks c := by
  have hnext : Tracks { s with nextServerId := s.nextServerId + 1 } c := h.of_obj (fun _ _ ho => ho) rfl
  exact hnext.create_fresh ((h.fresh s.births le_rfl).agrees_forInterface _) (forInterface_ne_viewport _)

theorem Tracks.receive {s : State F} {c : Contents} (h : s.Tracks c) (desc : MessageDesc) (version : Nat)
    (alive : ObjectId → Bool) (args : List UpstreamArg) :
    (s.receive E desc version alive args).1.Tracks c := by
  apply receive_induction (P := fun t => t.Tracks c)
  · intro t iface up ht
    exact ht.serve iface version up
  · intro t ht
    exact ht.of_obj (fun _ _ ho => ho) rfl
  · exact h

theorem Tracks.delivered {s s' : State F} {c : Contents} {bridge : Id} {iface : Interface}
    {desc : MessageDesc} {e : Event} {input : Incoming} {out : State F × List BridgeArg × Bool}
    (h : out.1.Tracks c) (hd : Delivered s s' bridge iface desc e input out) : s'.Tracks c := by
  obtain ⟨data, t, hends, hs⟩ := hd.parts
  have hnoted : Tracks (if out.2.2 then
      out.1.note (.event bridge e.sender desc.name e.args out.2.1) else out.1) c := by
    split
    · exact h.of_obj (fun _ _ ho => ho) rfl
    · exact h
  rw [hs]
  exact (hnoted.ends hends).of_obj (fun _ _ ho => ho) rfl

/-- The compositor made the buffer: it comes as a new object. -/
theorem tracks_created {s : State F} {c : Contents} (h : s.Tracks c) (hkept : s.IdsKept) {bridge : Id}
    {o : Obj} (ho : s.obj bridge = some o) (hparams : o.role.isParams) (iface : Interface)
    (version : Nat) (up : Option ObjectId) (hidden : Bool) :
    (({ s with nextServerId := s.nextServerId + 1 }.create .compositor s.nextServerId iface version
      (.upstream up) (Role.forInterface iface.name)).beforeEvent E bridge
        "zwp_linux_buffer_params_v1" "created" hidden [.newId s.nextServerId]).1.Tracks
      (c.apply (.created o.born s.births)) := by
  have hnext : Tracks { s with nextServerId := s.nextServerId + 1 } c := h.of_obj (fun _ _ ho => ho) rfl
  have hfresh := h.fresh s.births le_rfl
  obtain ⟨size, hsize⟩ : ∃ size, o.role = .bufferParams size := by
    cases hρ : o.role with
    | bufferParams size => exact ⟨size, rfl⟩
    | _ =>
        rw [hρ] at hparams
        cases hparams
  have hasked : c.params o.born = size := (h.agrees bridge o ho).params size hsize
  -- The params object is not the new one.
  have hrole : ({ s with nextServerId := s.nextServerId + 1 }.create .compositor s.nextServerId iface
      version (.upstream up) (Role.forInterface iface.name)).role bridge = some (.bufferParams size) := by
    have hne : bridge ≠ s.nextServerId := by
      intro hbridge
      rw [hbridge, hkept.unused _ le_rfl] at ho
      cases ho
    rw [role, obj_create, if_neg hne, ← hsize]
    exact congrArg (Option.map Obj.role) ho
  rw [beforeEvent_created, hrole]
  show State.Tracks _ (c.sized s.births (c.params o.born))
  rw [hasked]
  cases size with
  | none =>
      apply hnext.create_sized _ (forInterface_ne_viewport _)
      have hunsized : (c.sized s.births none).Fresh s.births :=
        ⟨hfresh.surface, Function.update_self _ _ _, hfresh.params⟩
      exact hunsized.agrees_forInterface _
  | some size =>
      have hbuffer : ({ s with nextServerId := s.nextServerId + 1 }.create .compositor s.nextServerId
          iface version (.upstream up) (.buffer size.1 size.2)).Tracks (c.sized s.births (some size)) :=
        hnext.create_sized (Contents.agrees_buffer size) fun r hr => by cases hr
      apply Tracks.of_still _ (still_focus _ _ _ _ _ _)
      apply hbuffer.of_obj
      · intro j o' ho'
        rw [← obj_create_setRole]
        exact ho'
      · rfl

private theorem sizeOps_event {s : State F} {e : Event} {bridge : Id} {o : Obj} {desc : MessageDesc}
    (ht : Taken s e bridge o desc) : s.sizeOps (.event e) =
      if o.iface.name = "zwp_linux_buffer_params_v1" ∧ desc.name = "created" ∧
        desc.childInterface.isSome ∧ s.nextServerId + 1 < 2 ^ 32 then [.created o.born s.births] else [] := by
  unfold sizeOps
  dsimp only
  rw [receiver_eq_some.mpr ht]

private theorem sizeOps_event_none {s : State F} {e : Event} (hnone : ∀ bridge o desc, ¬Taken s e bridge o desc) :
    s.sizeOps (.event e) = [] := by
  unfold sizeOps
  dsimp only
  split
  · rename_i hreceiver
    exact absurd (receiver_eq_some.mp hreceiver) (hnone _ _ _)
  · rfl

theorem Tracks.event {s : State F} {c : Contents} (h : s.Tracks c) (hkept : s.IdsKept) {e : Event}
    (hok : SizeOk (s, c) (.event e)) :
    (s.event E e).Tracks ((s.sizeOps (.event e)).foldl Contents.apply c) := by
  rcases s.event_cases (E := E) e with ⟨hnone, hsame⟩ | ⟨bridge, o, desc, ht, hevent⟩
  · rw [hsame, sizeOps_event_none hnone]
    exact h
  rw [sizeOps_event ht]
  by_cases hcreated : o.iface.name = "zwp_linux_buffer_params_v1" ∧ desc.name = "created"
  -- The buffer that the parameters are of is created.
  · obtain ⟨hargs, hparams⟩ := hok _ (receiver_eq_some.mpr ht) hcreated.1 hcreated.2
    obtain ⟨up, hup⟩ : ∃ up, e.args = [.newId up] := by
      obtain ⟨a, ha, hnew⟩ := List.map_eq_singleton_iff.mp hargs
      cases a with
      | newId up => exact ⟨up, ha⟩
      | _ => cases hnew
    have hsome := isSome_of_upstream (hkept.receive_upstream (E := E) ht)
    rw [hup] at hevent hsome
    unfold State.receive at hevent hsome
    cases hchild : desc.childInterface with
    | none =>
        rw [hchild] at hevent
        rw [if_neg (by simp)]
        rcases hevent with ⟨_, hs⟩ | ⟨input, hinput, _⟩
        · rw [hs]
          exact h
        · cases hinput
    | some name =>
        rw [hchild] at hevent hsome
        dsimp only at hevent hsome
        by_cases hid : s.nextServerId + 1 < 2 ^ 32
        · rw [if_pos ⟨hcreated.1, hcreated.2, rfl, hid⟩]
          rw [if_pos hid] at hevent hsome
          rcases hevent with ⟨hinput, _⟩ | ⟨input, hinput, hs⟩
          · cases hinput
          · rw [hs]
            have hargs : input.args = [.newId s.nextServerId] := by
              rw [← Option.some.inj hinput]
            apply Tracks.delivered _ (delivered_deliver hsome o.iface desc e input)
            rw [hcreated.1, hcreated.2, hargs]
            exact tracks_created h hkept ht.found hparams _ _ _ _
        · rw [if_neg fun hboth => hid hboth.2.2.2]
          rw [if_neg hid] at hevent
          rcases hevent with ⟨_, hs⟩ | ⟨input, hinput, _⟩
          · rw [hs]
            exact h.of_obj (fun _ _ ho => ho) rfl
          · cases hinput
  -- Any other event says nothing of sizes.
  · rw [if_neg fun hboth => hcreated ⟨hboth.1, hboth.2.1⟩]
    have hreceived := h.receive (E := E) desc o.version e.alive e.args
    rcases hevent with ⟨_, hs⟩ | ⟨input, _, hs⟩
    · rw [hs]
      exact hreceived
    · rw [hs]
      have hsome := isSome_of_upstream (hkept.receive_upstream (E := E) ht)
      apply Tracks.delivered _ (delivered_deliver hsome o.iface desc e input)
      exact hreceived.of_still (still_beforeEvent _ _ _ _ hcreated)

/-! ## Section 6: Runs -/

theorem Tracks.step {s s' : State F} {c c' : Contents} (h : s.Tracks c) (hkept : s.IdsKept)
    {a : Action} (hok : SizeOk (s, c) a) (ha : trackedStep E (s, c) a = some (s', c')) :
    s'.Tracks c' := by
  obtain ⟨t, ht, hsame⟩ := Option.map_eq_some_iff.mp ha
  cases hsame
  cases a with
  | request m answer =>
      change (s.request E m answer).toOption = some s' at ht
      cases hr : s.request E m answer with
      | error fault =>
          rw [hr] at ht
          cases ht
      | ok t =>
          rw [hr] at ht
          cases ht
          exact h.request hok hr
  | event e =>
      cases ht
      exact h.event hkept hok
  | setOutput global geometry =>
      cases ht
      exact h.of_still (s.still_setOutput global geometry)
  | close toplevel =>
      cases ht
      exact h.of_still (s.still_close toplevel)

private theorem tracks_initial (F : Type) (E : Setting F) : (State.initial F E).Tracks {} := by
  have hdisplay : ∀ id o, (State.initial F E).obj id = some o →
      id = displayId ∧ o.born = 0 ∧ o.role = .none := by
    intro id o ho
    rw [obj_initial] at ho
    split at ho
    · rename_i hid
      rw [← Option.some.inj ho]
      exact ⟨hid, rfl, rfl⟩
    · cases ho
  have hfresh : ∀ b, ({} : Contents).Fresh b := fun b => ⟨rfl, rfl, rfl⟩
  refine { lt := ?lt, inj := ?inj, fresh := fun b _ => hfresh b, agrees := ?agrees, home := ?home }
  case lt =>
    intro id o ho
    rw [(hdisplay id o ho).2.1]
    exact Nat.one_pos
  case inj =>
    intro id id' o o' ho ho' _
    exact (hdisplay id o ho).1.trans (hdisplay id' o' ho').1.symm
  case agrees =>
    intro id o ho
    rw [(hdisplay id o ho).2.2]
    exact (hfresh _).agrees rfl (fun size hsize => (nomatch hsize)) (fun x hx => (nomatch hx))
      fun r hr => (nomatch hr)
  case home =>
    intro id r b hrole _
    obtain ⟨o, ho, hρ⟩ := Option.map_eq_some_iff.mp hrole
    rw [(hdisplay id o ho).2.2] at hρ
    cases hρ

/-- The size of a surface's committed state is the one of its content. -/
theorem Tracks.surfaceSize {s : State F} {c : Contents} (h : s.Tracks c) {x : Surface}
    (hok : CommitOk s x (x.content c)) : s.surfaceSize x = (x.content c).size := by
  unfold CommitOk at hok
  unfold State.surfaceSize Content.size Surface.content
  dsimp only
  cases hdestination : x.destination with
  | some d =>
      rw [hdestination] at hok
      obtain ⟨size, hsize⟩ := Option.isSome_iff_exists.mp hok
      have hbuffer : x.attached.bind c.sizeOf = some size := hsize
      rw [hbuffer]
      rfl
  | none =>
      rw [hdestination] at hok
      cases hattached : x.attached with
      | none => rfl
      | some r =>
          have hthere := hok r hattached
          show _ = Option.map _ (r.born.bind c.buffers)
          rw [← hthere]
          unfold State.role
          dsimp only
          cases ho : s.obj r.id with
          | none => rfl
          | some o =>
              -- The buffer is still there, and so is its size.
              have hsize := (h.agrees r.id o ho).buffer
              show _ = Option.map _ (c.buffers o.born)
              rw [← hsize]
              rw [Option.map_some]
              cases o.role <;> rfl

/-- A commit finds the size of what is committed. -/
theorem Tracks.commitSurface {x : State F × Contents} (htracks : x.1.Tracks x.2) {m : Request} {answer : Answer}
    {b : Nat} (hcommit : .commit b ∈ x.1.sizeOps (.request m answer)) (hok : SizeOk x (.request m answer)) :
    (x.1.commitSurface m.sender).2 = (x.2.surfaces b).commit.size := by
  cases ho : x.1.obj m.sender with
  | none =>
      unfold State.sizeOps at hcommit
      dsimp only at hcommit
      rw [ho] at hcommit
      cases hcommit
  | some o =>
      have hrole : x.1.role m.sender = some o.role := congrArg (Option.map Obj.role) ho
      have hcommitted := hok _ hcommit o.role hrole
      obtain rfl : b = o.born := State.commit_mem_sizeOps ho hcommit
      cases hρ : o.role with
      | surface y =>
          rw [hρ] at hcommitted hrole
          have hcontent := ((htracks.agrees m.sender o ho).surface y hρ).1
          have hcommit' : (y.content x.2).commit = y.commit.content x.2 := State.content_commit y x.2
          change CommitOk x.1 y.commit (x.2.surfaces o.born).commit at hcommitted
          rw [hcontent, hcommit'] at hcommitted ⊢
          unfold State.commitSurface
          rw [hrole]
          exact htracks.surfaceSize hcommitted
      | _ =>
          rw [hρ] at hcommitted
          exact hcommitted.elim

end State

theorem tracks_of_run {x : State F × Contents} {as : List Action}
    (hmeets : StepsMeet (trackedStep E) SizeOk (State.initial F E, {}) as)
    (hrun : run (trackedStep E) (State.initial F E, {}) as = some x) : x.1.IdsKept ∧ x.1.Tracks x.2 :=
  run_invariant_of_meets (I := fun x => x.1.IdsKept ∧ x.1.Tracks x.2)
    (fun x a x' h hok ha => by
      obtain ⟨t, ht, hsame⟩ := Option.map_eq_some_iff.mp ha
      refine ⟨?_, h.2.step h.1 hok ha⟩
      rw [← hsame]
      exact h.1.step ht)
    ⟨State.idsKept_initial F E, State.tracks_initial F E⟩ hmeets hrun

/-- In a run in which every viewport sets the destination of its own surface, and every
commit finds the buffer it is about, the size that a commit finds is the one of the
content that is committed. -/
theorem commit_size (E : Setting F) {x : State F × Contents} {as : List Action} {m : Request}
    {answer : Answer} {b : Nat}
    (hmeets : StepsMeet (trackedStep E) SizeOk (State.initial F E, {}) as)
    (hrun : run (trackedStep E) (State.initial F E, {}) as = some x)
    (hcommit : .commit b ∈ x.1.sizeOps (.request m answer)) (hok : SizeOk x (.request m answer)) :
    (x.1.commitSurface m.sender).2 = (x.2.surfaces b).commit.size := by
  have htracks := tracks_of_run hmeets hrun
  exact htracks.2.commitSurface hcommit hok

/-- Surfaces and shared memory buffers. -/
def bufferTable (name : String) : Interface :=
  { name := name
    requests := match name with
      | "wl_display" => [{ name := "sync", signature := [.newId], childInterface := some "wl_callback" },
          { name := "get_registry", signature := [.newId], childInterface := some "wl_registry" }]
      | "wl_registry" => [{ name := "bind", signature := [.uint, .str false, .uint, .newId] }]
      | "wl_compositor" =>
          [{ name := "create_surface", signature := [.newId], childInterface := some "wl_surface" }]
      | "wl_shm" => [{ name := "create_pool", signature := [.newId, .fd, .int],
                       childInterface := some "wl_shm_pool" }]
      | "wl_shm_pool" => [{ name := "create_buffer", signature := [.newId, .int, .int, .int, .int, .uint],
                            childInterface := some "wl_buffer" }]
      | "wl_buffer" => [{ name := "destroy", isDestructor := true }]
      | "wl_surface" => [{ name := "destroy", isDestructor := true },
          { name := "attach", signature := [.object true, .int, .int], argInterfaces := ["wl_buffer"] },
          { name := "commit" }]
      | _ => []
    events := match name with
      | "wl_registry" => [{ name := "global", signature := [.uint, .str false, .uint] }]
      | _ => [] }

/-- A surface shows a buffer. -/
def bufferShown : List Action :=
  [.request ⟨displayId, 1, [.newId 2]⟩ ⟨some 10, true⟩,
    .event { sender := 10, opcode := 0, args := [.uint 1, .str (some "wl_compositor"), .uint 6] },
    .event { sender := 10, opcode := 0, args := [.uint 2, .str (some "wl_shm"), .uint 1] },
    .request ⟨2, 0, [.uint 1, .str (some "wl_compositor"), .uint 1, .newId 3]⟩ ⟨some 11, true⟩,
    .request ⟨2, 0, [.uint 2, .str (some "wl_shm"), .uint 1, .newId 4]⟩ ⟨some 12, true⟩,
    .request ⟨3, 0, [.newId 5]⟩ ⟨some 13, true⟩,
    .request ⟨4, 0, [.newId 6, .fd 0, .int 12288]⟩ ⟨some 14, true⟩,
    .request ⟨6, 0, [.newId 7, .int 0, .int 64, .int 48, .int 256, .uint 0]⟩ ⟨some 15, true⟩,
    .request ⟨5, 1, [.object 7, .int 0, .int 0]⟩ ⟨some 0, true⟩,
    .request ⟨5, 2, []⟩ ⟨some 0, true⟩]

theorem commit_size_example :
    ∃ x, run (trackedStep (Setting.bare bufferTable)) (State.initial Unit (Setting.bare bufferTable), {})
        bufferShown = some x ∧
      (x.1.commitSurface 5).2 = (x.2.surfaces 4).commit.size := by
  have hsome : ((run (trackedStep (Setting.bare bufferTable))
      (State.initial Unit (Setting.bare bufferTable), {}) bufferShown).any fun x =>
        decide (.commit 4 ∈ x.1.sizeOps (.request ⟨5, 2, []⟩ ⟨some 0, true⟩) ∧
          SizeOk x (.request ⟨5, 2, []⟩ ⟨some 0, true⟩))) = true := by
    decide
  obtain ⟨x, hx, hchecked⟩ := exists_of_any hsome
  obtain ⟨hcommit, hok⟩ := of_decide_eq_true hchecked
  exact ⟨x, hx, commit_size _ (by decide) hx hcommit hok⟩

/-- The buffer object is destroyed, and the surface still shows it. -/
theorem shown_buffer_lost :
    ∃ x, run (trackedStep (Setting.bare bufferTable)) (State.initial Unit (Setting.bare bufferTable), {})
        (bufferShown ++ [.request ⟨7, 0, []⟩ ⟨some 0, true⟩]) = some x ∧
      .commit 4 ∈ x.1.sizeOps (.request ⟨5, 2, []⟩ ⟨some 0, true⟩) ∧
      (x.1.commitSurface 5).2 = none ∧ (x.2.surfaces 4).commit.size = some (64, 48) := by
  have hsome : ((run (trackedStep (Setting.bare bufferTable))
      (State.initial Unit (Setting.bare bufferTable), {})
      (bufferShown ++ [.request ⟨7, 0, []⟩ ⟨some 0, true⟩])).any fun x =>
        decide (.commit 4 ∈ x.1.sizeOps (.request ⟨5, 2, []⟩ ⟨some 0, true⟩) ∧
          (x.1.commitSurface 5).2 = none ∧ (x.2.surfaces 4).commit.size = some (64, 48))) = true := by
    decide
  obtain ⟨x, hx, hchecked⟩ := exists_of_any hsome
  exact ⟨x, hx, of_decide_eq_true hchecked⟩

end Psbox.Decorations
