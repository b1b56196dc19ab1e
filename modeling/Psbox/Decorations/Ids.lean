import Psbox.Decorations.Parts
import Psbox.Foundations.Runs

/-!
# Object Ids

An id of the bridge's is free, then an object's, and then, once the bridge was told that
it is deleted, free again; an id the proxy gave out itself is spent after its object.
`Phase.next` says which entries of the log an id allows, and in every run of the proxy
the log is a run of it, for every id. Events are written to an object only while it is
the one created for the compositor's object that sent them.
-/

namespace Psbox.Decorations

open Psbox.Foundations

variable {F : Type} {E : Setting F}

/-! ## Section 1: The Life of an Id -/

inductive Phase where
  | free
  | live (kind : Kind)
  /-- Destroyed, and the bridge not told yet. -/
  | gone
  /-- An id of the proxy's own, after its object. -/
  | spent
  deriving DecidableEq, Repr

/-- The phase after its object. -/
def Phase.ended (id : Id) : Phase → Option Phase
  | .live _ => some (if id < serverIdStart then .gone else .spent)
  | _ => none

/-- What an entry does to an id, when the id is in a phase that allows it. -/
def Phase.next (id : Id) (p : Phase) : Entry → Option Phase
  | .created origin j kind =>
      if j = id then
        if p = .free ∧ (origin = .bridge ↔ id < serverIdStart) then some (.live kind) else none
      else some p
  | .destroyed j => if j = id then p.ended id else some p
  | .deleteId j => if j = id then (if p = .gone then some .free else none) else some p
  | .event j up _ _ _ =>
      if j = id then (if p = .live (.upstream (some up)) then some p else none) else some p
  | .own _ _ _ | .passed _ _ _ => some p

/-- Entries of the life of an id, other than the events it gets. -/
def Entry.lifeOf (id : Id) : Entry → Bool
  | .created _ j _ | .destroyed j | .deleteId j => j = id
  | _ => false

private theorem Phase.next_aside {id : Id} {p : Phase} {e : Entry} (he : e.aside) :
    p.next id e = some p := by
  cases e with
  | own _ _ _ | passed _ _ _ => rfl
  | created _ _ _ | destroyed _ | deleteId _ | event _ _ _ _ _ => cases he

private theorem Phase.run_asides {id : Id} (p : Phase) {asides : List Entry} (h : ∀ e ∈ asides, e.aside) :
    run (Phase.next id) p asides = some p := by
  induction asides with
  | nil => rfl
  | cons e asides ih =>
      rw [run, next_aside (h e List.mem_cons_self)]
      exact ih fun e' he' => h e' (List.mem_cons_of_mem _ he')

/-- An entry that is not of the life of the id, and that the id allows. -/
theorem Phase.next_eq_self {id : Id} {p q : Phase} {e : Entry} (h : p.next id e = some q)
    (he : e.lifeOf id = false) : q = p := by
  cases e with
  | own _ _ _ | passed _ _ _ => exact (Option.some.inj h).symm
  | event _ _ _ _ _ =>
      rw [next] at h
      split at h
      · split at h
        · exact (Option.some.inj h).symm
        · cases h
      · exact (Option.some.inj h).symm
  | created _ _ _ | destroyed _ | deleteId _ =>
      rw [next, if_neg (by simpa [Entry.lifeOf] using he)] at h
      exact (Option.some.inj h).symm

private theorem Phase.next_created {id : Id} {p q : Phase} {origin : Origin} {kind : Kind} :
    p.next id (.created origin id kind) = some q ↔
      p = .free ∧ (origin = .bridge ↔ id < serverIdStart) ∧ q = .live kind := by
  rw [next, if_pos rfl]
  split
  · rename_i hfree
    rw [Option.some.injEq, eq_comm]
    exact ⟨fun hq => ⟨hfree.1, hfree.2, hq⟩, fun h => h.2.2⟩
  · rename_i hfree
    exact ⟨fun hq => (nomatch hq), fun h => absurd ⟨h.1, h.2.1⟩ hfree⟩

private theorem Phase.next_destroyed {id : Id} {p q : Phase} :
    p.next id (.destroyed id) = some q ↔
      (∃ kind, p = .live kind) ∧ q = if id < serverIdStart then .gone else .spent := by
  rw [next, if_pos rfl]
  cases p with
  | live kind =>
      show some _ = some q ↔ _
      rw [Option.some.injEq, eq_comm]
      exact ⟨fun hq => ⟨⟨kind, rfl⟩, hq⟩, And.right⟩
  | free | gone | spent => simp [ended]

private theorem Phase.next_deleteId {id : Id} {p q : Phase} :
    p.next id (.deleteId id) = some q ↔ p = .gone ∧ q = .free := by
  rw [next, if_pos rfl]
  split
  · rename_i hgone
    rw [Option.some.injEq, eq_comm]
    exact ⟨fun hq => ⟨hgone, hq⟩, And.right⟩
  · rename_i hgone
    exact ⟨fun hq => (nomatch hq), fun h => absurd h.1 hgone⟩

/-- A live id was created, and nothing ended its life since. -/
theorem Phase.created_of_run {id : Id} {p : Phase} {kind : Kind} {log : List Entry}
    (h : run (Phase.next id) p log = some (.live kind)) :
    (p = .live kind ∧ ∀ e ∈ log, e.lifeOf id = false) ∨
      ∃ before origin after, log = before ++ .created origin id kind :: after ∧
        ∀ e ∈ after, e.lifeOf id = false := by
  induction log generalizing p with
  | nil =>
      left
      exact ⟨Option.some.inj h, by simp⟩
  | cons e log ih =>
      obtain ⟨q, hq, hrest⟩ := run_cons_eq_some.mp h
      rcases ih hrest with ⟨hlive, hquiet⟩ | ⟨before, origin, after, hlog, hquiet⟩
      · by_cases he : e.lifeOf id = false
        · left
          refine ⟨(next_eq_self hq he).symm.trans hlive, ?_⟩
          intro e' he'
          rcases List.mem_cons.mp he' with rfl | he'
          · exact he
          · exact hquiet e' he'
        -- Of the entries of its life, only its creation leaves the id live.
        · right
          cases e with
          | created origin j k =>
              obtain rfl : j = id := by simpa [Entry.lifeOf] using he
              obtain ⟨_, _, hk⟩ := next_created.mp hq
              cases hlive.symm.trans hk
              exact ⟨[], origin, log, rfl, hquiet⟩
          | destroyed j =>
              obtain rfl : j = id := by simpa [Entry.lifeOf] using he
              obtain ⟨_, hend⟩ := next_destroyed.mp hq
              rw [hlive] at hend
              split at hend <;> cases hend
          | deleteId j =>
              obtain rfl : j = id := by simpa [Entry.lifeOf] using he
              cases hlive.symm.trans (next_deleteId.mp hq).2
          | event _ _ _ _ _ | own _ _ _ | passed _ _ _ => exact absurd rfl he
      · right
        exact ⟨e :: before, origin, after, by rw [hlog]; rfl, hquiet⟩

/-- The bridge is told once of each object that is destroyed, except of one that has just
been. -/
theorem Phase.count_deleteId {id : Id} (hid : id < serverIdStart) {p q : Phase} {log : List Entry}
    (h : run (Phase.next id) p log = some q) :
    log.count (.destroyed id) + (if p = .gone then 1 else 0) =
      log.count (.deleteId id) + (if q = .gone then 1 else 0) := by
  induction log generalizing p with
  | nil =>
      cases h
      rfl
  | cons e log ih =>
      obtain ⟨r, hr, hrest⟩ := run_cons_eq_some.mp h
      have hlater := ih hrest
      by_cases he : e.lifeOf id = false
      · have hsame : r = p := next_eq_self hr he
        have hdestroyed : e ≠ .destroyed id := by
          rintro rfl
          simp [Entry.lifeOf] at he
        have hdeleted : e ≠ .deleteId id := by
          rintro rfl
          simp [Entry.lifeOf] at he
        rw [List.count_cons_of_ne hdestroyed, List.count_cons_of_ne hdeleted, ← hsame]
        exact hlater
      · cases e with
        | created origin j k =>
            obtain rfl : j = id := by simpa [Entry.lifeOf] using he
            obtain ⟨hp, _, hr⟩ := next_created.mp hr
            rw [hr] at hlater
            simpa [hp] using hlater
        | destroyed j =>
            obtain rfl : j = id := by simpa [Entry.lifeOf] using he
            obtain ⟨⟨k, hp⟩, hr⟩ := next_destroyed.mp hr
            rw [hr, if_pos hid] at hlater
            simp [hp] at hlater ⊢
            omega
        | deleteId j =>
            obtain rfl : j = id := by simpa [Entry.lifeOf] using he
            obtain ⟨hp, hr⟩ := next_deleteId.mp hr
            rw [hr] at hlater
            simp [hp] at hlater ⊢
            omega
        | event _ _ _ _ _ | own _ _ _ | passed _ _ _ => exact absurd rfl he

/-! ## Section 2: The Invariant -/

/-- The ids given to objects the compositor created, in order. -/
def serverIds (log : List Entry) : List Id :=
  log.filterMap fun
    | .created .compositor id _ => some id
    | _ => none

/-- The phase of an id, from the tables. -/
def State.phase (s : State F) (id : Id) : Phase :=
  match (s.obj id).map Obj.kind with
  | some kind => .live kind
  | none => if serverIdStart ≤ id ∧ id < s.nextServerId then .spent else .free

/-- What every step keeps of the ids. -/
structure State.IdsKept (s : State F) : Prop where
  start : serverIdStart ≤ s.nextServerId
  unused : ∀ id, s.nextServerId ≤ id → s.obj id = none
  numbered : serverIds s.log = List.range' serverIdStart (s.nextServerId - serverIdStart)
  lives : ∀ id, run (Phase.next id) .free s.log = some (s.phase id)

namespace State

private theorem phase_of_obj {s : State F} {id : Id} {o : Obj} (h : s.obj id = some o) :
    s.phase id = .live o.kind := by
  rw [phase, h]
  rfl

private theorem phase_of_none {s : State F} {id : Id} (h : s.obj id = none) :
    s.phase id = if serverIdStart ≤ id ∧ id < s.nextServerId then .spent else .free := by
  rw [phase, h]
  rfl

namespace IdsKept

variable {s s' : State F}

/-- The log goes on with what an id allows. -/
theorem lives_snoc (h : s.IdsKept) {id : Id} {e : Entry} {q : Phase}
    (he : (s.phase id).next id e = some q) :
    run (Phase.next id) .free (s.log ++ [e]) = some q := by
  rw [run_append, h.lives]
  show ((s.phase id).next id e).bind some = some q
  rw [he]
  rfl

theorem of_quiet (h : s.IdsKept) (hq : Quiet s s') : s'.IdsKept := by
  obtain ⟨asides, hlog, hasides⟩ := hq.log
  refine { start := hq.next ▸ h.start, unused := ?unused, numbered := ?numbered, lives := ?lives }
  case unused =>
    intro id hid
    have hsame := hq.obj_isSome id
    rw [h.unused id (hq.next ▸ hid)] at hsame
    simpa using hsame
  case numbered =>
    have hnone : serverIds asides = [] := by
      apply List.filterMap_eq_nil_iff.mpr
      intro e he
      have haside := hasides e he
      cases e <;> first | rfl | cases haside
    rw [hlog, serverIds, List.filterMap_append, hq.next]
    show serverIds s.log ++ serverIds asides = _
    rw [hnone, List.append_nil]
    exact h.numbered
  case lives =>
    intro id
    have hphase : s'.phase id = s.phase id := by
      rw [phase, phase, hq.kind, hq.next]
    rw [hlog, run_append, h.lives, hphase]
    exact Phase.run_asides _ hasides

/-- An id the bridge may give gets an object. -/
theorem create_bridge (h : s.IdsKept) {id : Id} (hnew : s.checkNewId id = .ok ()) (iface : Interface)
    (version : Nat) (kind : Kind) (role : Role) :
    (s.create .bridge id iface version kind role).IdsKept := by
  obtain ⟨_, hid, hnone⟩ := checkNewId_eq_ok.mp hnew
  refine { start := h.start, unused := ?unused, numbered := ?numbered, lives := ?lives }
  case unused =>
    intro j hj
    have hlt : id < j := lt_of_lt_of_le hid (le_trans h.start hj)
    rw [obj_create, if_neg (ne_of_gt hlt)]
    exact h.unused j hj
  case numbered =>
    show serverIds (s.log ++ [_]) = _
    rw [serverIds, List.filterMap_append]
    exact (List.append_nil _).trans h.numbered
  case lives =>
    intro j
    apply h.lives_snoc
    by_cases hj : id = j
    · rw [← hj]
      apply Phase.next_created.mpr
      refine ⟨?_, by simpa using hid, ?_⟩
      · rw [phase_of_none hnone, if_neg]
        exact fun hspent => absurd hid (not_lt.mpr hspent.1)
      · rw [phase, obj_create, if_pos rfl]
        rfl
    · rw [Phase.next, if_neg hj, phase, phase, obj_create, if_neg (Ne.symm hj)]
      rfl

/-- The next id of the proxy's own gets an object. -/
theorem create_compositor (h : s.IdsKept) (iface : Interface) (version : Nat) (kind : Kind)
    (role : Role) :
    ({ s with nextServerId := s.nextServerId + 1 }.create .compositor s.nextServerId iface version kind
      role).IdsKept := by
  have hnone : s.obj s.nextServerId = none := h.unused _ (le_refl _)
  have hcount : s.nextServerId + 1 - serverIdStart = s.nextServerId - serverIdStart + 1 :=
    Nat.succ_sub h.start
  refine {
    start := le_trans h.start (Nat.le_succ _), unused := ?unused, numbered := ?numbered,
    lives := ?lives }
  case unused =>
    intro j hj
    have hlt : s.nextServerId < j := hj
    rw [obj_create, if_neg (ne_of_gt hlt)]
    exact h.unused j (le_of_lt hlt)
  case numbered =>
    show serverIds (s.log ++ [_]) = List.range' _ (s.nextServerId + 1 - serverIdStart)
    rw [serverIds, List.filterMap_append, hcount, List.range'_concat, Nat.one_mul]
    show serverIds s.log ++ [s.nextServerId] = _
    rw [h.numbered, Nat.add_sub_cancel' h.start]
  case lives =>
    intro j
    apply h.lives_snoc
    by_cases hj : s.nextServerId = j
    · rw [← hj]
      apply Phase.next_created.mpr
      refine ⟨?_, ?_, ?_⟩
      · rw [phase_of_none hnone, if_neg]
        exact fun hspent => absurd hspent.2 (lt_irrefl _)
      · simpa using h.start
      · rw [phase, obj_create, if_pos rfl]
        rfl
    · -- One more id is the proxy's, but it is not this one.
      have hlt : j < s.nextServerId + 1 ↔ j < s.nextServerId :=
        Nat.lt_succ_iff.trans ⟨fun hle => lt_of_le_of_ne hle (Ne.symm hj), le_of_lt⟩
      rw [Phase.next, if_neg hj, phase, phase, obj_create, if_neg (Ne.symm hj)]
      show _ = some (match (s.obj j).map Obj.kind with
        | some kind => Phase.live kind
        | none => if serverIdStart ≤ j ∧ j < s.nextServerId + 1 then .spent else .free)
      simp only [hlt]

/-- An object ends, and the bridge is told when the id was its own. -/
theorem destroy (h : s.IdsKept) {id : Id} {o : Obj} (ho : s.obj id = some o) :
    ((s.destroy id).deleteId id).IdsKept := by
  have hlive : (s.phase id).next id (.destroyed id) =
      some (if id < serverIdStart then .gone else .spent) :=
    Phase.next_destroyed.mpr ⟨⟨o.kind, phase_of_obj ho⟩, rfl⟩
  have hother : ∀ j, id ≠ j → (s.destroy id).phase j = s.phase j := by
    intro j hj
    rw [phase, phase, obj_destroy, if_neg (Ne.symm hj)]
    rfl
  have hafter : (s.destroy id).phase id = if id < serverIdStart then .free else .spent := by
    have hnone : (s.destroy id).obj id = none := by rw [obj_destroy, if_pos rfl]
    rw [phase_of_none hnone]
    by_cases hid : id < serverIdStart
    · rw [if_pos hid, if_neg fun hspent => absurd hid (not_lt.mpr hspent.1)]
    · have hnext : id < s.nextServerId := by
        apply not_le.mp
        intro hle
        cases ho.symm.trans (h.unused id hle)
      rw [if_neg hid, if_pos ⟨not_lt.mp hid, hnext⟩]
  have hunused : ∀ j, s.nextServerId ≤ j → (s.destroy id).obj j = none := by
    intro j hj
    rw [obj_destroy]
    split
    · rfl
    · exact h.unused j hj
  have hnumbered : serverIds (s.destroy id).log =
      List.range' serverIdStart (s.nextServerId - serverIdStart) := by
    show serverIds (s.log ++ [_]) = _
    rw [serverIds, List.filterMap_append]
    exact (List.append_nil _).trans h.numbered
  unfold deleteId
  -- An id of the bridge's is told to be free again; one of the compositor's is spent.
  by_cases hid : id < serverIdStart
  · rw [if_pos hid]
    refine ⟨h.start, hunused, ?_, ?_⟩
    · show serverIds ((s.destroy id).log ++ [_]) = _
      rw [serverIds, List.filterMap_append]
      exact (List.append_nil _).trans hnumbered
    · intro j
      show run (Phase.next j) .free (s.log ++ [.destroyed id] ++ [.deleteId id]) = some ((s.destroy id).phase j)
      rw [run_append]
      by_cases hj : id = j
      · rw [← hj, h.lives_snoc hlive, hafter, if_pos hid, if_pos hid]
        simp [run, Phase.next]
      · have hsame : (s.phase j).next j (.destroyed id) = some (s.phase j) := by
          rw [Phase.next, if_neg hj]
        rw [h.lives_snoc hsame, hother j hj]
        simp [run, Phase.next, hj]
  · rw [if_neg hid]
    refine ⟨h.start, hunused, hnumbered, ?_⟩
    intro j
    apply h.lives_snoc
    by_cases hj : id = j
    · rw [← hj, hlive, hafter, if_neg hid, if_neg hid]
    · rw [Phase.next, if_neg hj, hother j hj]

/-- An event for the object that was created for its sender. -/
theorem event (h : s.IdsKept) {id : Id} {up : ObjectId} (hup : s.upstream id = some (some up))
    (name : String) (sent : List UpstreamArg) (written : List BridgeArg) :
    (s.note (.event id up name sent written)).IdsKept := by
  have hlive : s.phase id = .live (.upstream (some up)) := by
    unfold upstream at hup
    unfold phase
    split at hup
    · rename_i hkind
      rw [hkind, Option.some.inj hup]
    · cases hup
  refine ⟨h.start, h.unused, ?_, ?_⟩
  · show serverIds (s.log ++ [_]) = _
    rw [serverIds, List.filterMap_append]
    exact (List.append_nil _).trans h.numbered
  · intro j
    apply h.lives_snoc
    rw [Phase.next]
    by_cases hj : id = j
    · rw [if_pos hj, ← hj, if_pos hlive]
      rfl
    · rw [if_neg hj]
      rfl

theorem failed (h : s.IdsKept) : { s with failed := true }.IdsKept :=
  ⟨h.start, h.unused, h.numbered, h.lives⟩

theorem with_data (h : s.IdsKept) (data : Table Id) : { s with data := data }.IdsKept :=
  ⟨h.start, h.unused, h.numbered, h.lives⟩

theorem creates (h : s.IdsKept) {args : List BridgeArg} (hc : Creates args s s') : s'.IdsKept := by
  cases hc with
  | nothing hs =>
      rw [hs]
      exact h
  | new id iface version kind role data _ hnew _ _ _ hs =>
      rw [hs]
      exact (h.create_bridge hnew iface version kind role).with_data data

theorem ends (h : s.IdsKept) {id : Id} (he : Ends id s s') : s'.IdsKept := by
  cases he with
  | nothing hs =>
      rw [hs]
      exact h
  | gone hid hs =>
      obtain ⟨o, ho⟩ := Option.isSome_iff_exists.mp hid
      rw [hs]
      exact h.destroy ho

theorem requested (h : s.IdsKept) {m : Request} (hr : Requested m s s') : s'.IdsKept := by
  obtain ⟨t, u, v, hbefore, hcreates, hafter, hends⟩ := hr.parts
  exact (((h.of_quiet hbefore).creates hcreates).of_quiet hafter).ends hends

/-- The objects there already are as they were. -/
theorem receive (h : s.IdsKept) (desc : MessageDesc) (version : Nat) (alive : ObjectId → Bool)
    (args : List UpstreamArg) :
    (s.receive E desc version alive args).1.IdsKept ∧
      ∀ id o, s.obj id = some o → (s.receive E desc version alive args).1.obj id = some o := by
  apply receive_induction (P := fun t => t.IdsKept ∧ ∀ id o, s.obj id = some o → t.obj id = some o)
  · intro t iface up ht
    refine ⟨ht.1.create_compositor _ _ _ _, ?_⟩
    intro id o ho
    have hlive := ht.2 id o ho
    have hne : id ≠ t.nextServerId := by
      rintro rfl
      cases hlive.symm.trans (ht.1.unused _ (le_refl _))
    rw [obj_create, if_neg hne]
    exact hlive
  · intro t ht
    exact ⟨ht.1.failed, ht.2⟩
  · exact ⟨h, fun _ _ ho => ho⟩

/-- The object an event is for is still there when its arguments are in. -/
theorem receive_upstream (h : s.IdsKept) {e : Event} {bridge : Id} {obj : Obj} {desc : MessageDesc}
    (ht : Taken s e bridge obj desc) :
    (s.receive E desc obj.version e.alive e.args).1.upstream bridge = some (some e.sender) := by
  rw [upstream, (h.receive desc obj.version e.alive e.args).2 bridge obj ht.found]
  simp only [Option.map_some, ht.kind]

private theorem delivered_of (h : s.IdsKept) {bridge : Id} {iface : Interface} {desc : MessageDesc} {e : Event}
    {input : Incoming} {out : State F × List BridgeArg × Bool}
    (hup : s.upstream bridge = some (some e.sender))
    (hd : Delivered s s' bridge iface desc e input out) : s'.IdsKept := by
  obtain ⟨data, t, hends, hs⟩ := hd.parts
  have hquiet := h.of_quiet hd.quiet
  rw [hs]
  apply with_data
  apply ends _ hends
  split
  · exact hquiet.event ((hd.quiet.upstream bridge).trans hup) _ _ _
  · exact hquiet

theorem step (h : s.IdsKept) {a : Action} (ha : step E s a = some s') : s'.IdsKept := by
  cases a with
  | request m answer => exact h.requested (requested_of_step ha)
  | event e =>
      cases ha
      rcases s.event_cases (E := E) e with ⟨_, hs⟩ | ⟨bridge, obj, desc, ht, ⟨_, hs⟩ | ⟨input, _, hs⟩⟩
      · rw [hs]
        exact h
      · rw [hs]
        exact (h.receive desc obj.version e.alive e.args).1
      · have hup := h.receive_upstream (E := E) ht
        rw [hs]
        exact (h.receive desc obj.version e.alive e.args).1.delivered_of hup
          (delivered_deliver (isSome_of_upstream hup) obj.iface desc e input)
  | setOutput global geometry =>
      cases ha
      exact h.of_quiet (s.still_setOutput global geometry).toQuiet
  | close toplevel =>
      cases ha
      exact h.of_quiet (s.still_close toplevel).toQuiet

end IdsKept

theorem obj_initial (F : Type) (E : Setting F) (id : Id) :
    (State.initial F E).obj id = if id = displayId then some
      { iface := E.table "wl_display", version := 1, kind := .display, role := .none, born := 0 }
      else none := by
  by_cases hid : id = displayId
  · rw [if_pos hid, hid]
    exact AList.lookup_insert ∅
  · rw [if_neg hid]
    exact (AList.lookup_insert_ne hid).trans (AList.lookup_empty id)

/-- Only the display has an id before the first message. -/
theorem idsKept_initial (F : Type) (E : Setting F) : (State.initial F E).IdsKept := by
  refine { start := le_refl _, unused := ?unused, numbered := ?numbered, lives := ?lives }
  case unused =>
    intro id hid
    rw [obj_initial, if_neg]
    rintro rfl
    simp [displayId, State.initial, serverIdStart] at hid
  case numbered =>
    show [] = List.range' serverIdStart (serverIdStart - serverIdStart)
    rw [Nat.sub_self]
    rfl
  case lives =>
    intro id
    by_cases hid : displayId = id
    · have hlive : (State.initial F E).phase id = .live .display := by
        rw [phase, obj_initial, if_pos hid.symm]
        rfl
      have hcreated : Phase.next displayId .free (.created .bridge displayId .display) =
          some (.live .display) :=
        Phase.next_created.mpr ⟨rfl, by simp [displayId, serverIdStart], rfl⟩
      rw [hlive, ← hid]
      show (Phase.next displayId .free (.created .bridge displayId .display)).bind some = _
      rw [hcreated]
      rfl
    · have hfree : (State.initial F E).phase id = .free := by
        rw [phase, obj_initial, if_neg (Ne.symm hid)]
        apply if_neg
        intro hspent
        exact absurd hspent.1 (not_le.mpr hspent.2)
      rw [hfree]
      show (Phase.next id .free (.created .bridge displayId .display)).bind some = some .free
      rw [Phase.next, if_neg hid]
      rfl

end State

/-! ## Section 3: The End of an Object -/

/-- Whether a request is a destructor of the object it is sent on. -/
def Obj.destroyedBy (o : Obj) (opcode : Nat) : Bool :=
  match o.kind with
  | .display => false
  -- Both have `destroy` first.
  | .decorationManager | .decoration _ => opcode = 0
  | .upstream _ => (o.iface.requests[opcode]?).any MessageDesc.isDestructor

namespace State

/-- The object a message destroys, as the protocols say: the one that a destructor request is sent
on, and the one that a destructor event is for. -/
def destroys (s : State F) : Action → Option Id
  | .request m _ =>
      (s.obj m.sender).bind fun o => if o.destroyedBy m.opcode then some m.sender else none
  | .event e => (s.receiver e).bind fun x => if x.2.2.isDestructor then some x.1 else none
  | .setOutput _ _ | .close _ => none

/-- What no destructor of a protocol is: a request that binds a global or sets the geometry of a
window, or an event that creates an object. -/
def Ordinary (s : State F) : Action → Prop
  | .request m _ => ∀ o ∈ s.obj m.sender, o.iface.name ≠ "wl_registry" ∧
      ∀ desc ∈ o.iface.requests[m.opcode]?, (o.iface.name, desc.name) ≠ ("xdg_surface", "set_window_geometry")
  | .event e => ∀ a ∈ e.args, ∀ up, a ≠ .newId up
  | .setOutput _ _ | .close _ => True

/-- No object is gone, and the log goes on. -/
structure Grown (s t : State F) : Prop where
  objs : ∀ id, (s.obj id).isSome → (t.obj id).isSome
  log : s.log <+: t.log

namespace Grown

variable {s t u : State F}

theorem refl (s : State F) : Grown s s :=
  ⟨fun _ h => h, List.prefix_rfl⟩

theorem trans (h : Grown s t) (h' : Grown t u) : Grown s u :=
  ⟨fun id hid => h'.objs id (h.objs id hid), h.log.trans h'.log⟩

theorem of_quiet (h : Quiet s t) : Grown s t := by
  obtain ⟨asides, hlog, _⟩ := h.log
  refine ⟨fun id hid => ?_, asides, hlog.symm⟩
  rw [h.obj_isSome]
  exact hid

theorem create (s : State F) (origin : Origin) (id : Id) (iface : Interface) (version : Nat) (kind : Kind)
    (role : Role) : Grown s (s.create origin id iface version kind role) := by
  refine ⟨fun j hj => ?_, [.created origin id kind], rfl⟩
  rw [obj_create]
  split
  · rfl
  · exact hj

theorem note (s : State F) (e : Entry) : Grown s (s.note e) :=
  ⟨fun _ h => h, [e], rfl⟩

/-- Only the objects and the log matter. -/
theorem same (h : Grown s t) (hobj : ∀ id, u.obj id = t.obj id) (hlog : u.log = t.log) : Grown s u := by
  refine ⟨fun id hid => ?_, hlog ▸ h.log⟩
  rw [hobj]
  exact h.objs id hid

theorem createForwarded (s : State F) (id : Id) (iface : Interface) (version : Nat) (up : ObjectId)
    (role : Role) : Grown s (s.createForwarded id iface version up role) :=
  (create s .bridge id iface version (.upstream (some up)) role).same (fun _ => rfl) rfl

theorem createChild (s : State F) (child : Option (Id × String)) (version : Nat) (sent : Option ObjectId) :
    Grown s (s.createChild E child version sent) := by
  unfold State.createChild
  split
  · exact refl s
  · dsimp only
    split
    · exact createForwarded s _ _ _ _ _
    · exact create s _ _ _ _ _ _

theorem receive (s : State F) (desc : MessageDesc) (version : Nat) (alive : ObjectId → Bool)
    (args : List UpstreamArg) : Grown s (s.receive E desc version alive args).1 := by
  apply receive_induction (P := Grown s)
  · intro t iface up ht
    have hmade := create { t with nextServerId := t.nextServerId + 1 } .compositor t.nextServerId iface
      version (.upstream up) (Role.forInterface iface.name)
    exact ht.trans ⟨hmade.objs, hmade.log⟩
  · intro t ht
    exact ht.same (fun _ => rfl) rfl
  · exact refl s

end Grown

/-- What a step leaves of the objects that were there: all of them, or all but the one that the
message destroys, which the bridge is told when the id was its own. -/
inductive Outcome (s : State F) (a : Action) (s' : State F) : Prop where
  | stay (hgrown : Grown s s') (hnone : s.Ordinary a → s.destroys a = none)
  | gone (id : Id) (v : State F) (hgrown : Grown s v) (hdestroys : s.destroys a = some id)
      (hobj : ∀ j, s'.obj j = ((v.destroy id).deleteId id).obj j)
      (hlog : s'.log = ((v.destroy id).deleteId id).log)

private theorem log_destroyed (v : State F) (id : Id) :
    ((v.destroy id).deleteId id).log =
      v.log ++ .destroyed id :: if id < serverIdStart then [.deleteId id] else [] := by
  unfold deleteId
  split
  · exact List.append_assoc _ _ _
  · rfl

variable {s s' : State F}

/-- Only the geometry of a window is kept from the compositor. -/
theorem goes_beforeRequest (s : State F) (sender : Id) {iface request : String} (args : List BridgeArg)
    (hname : (iface, request) ≠ ("xdg_surface", "set_window_geometry")) :
    (s.beforeRequest E sender iface request args).2.2 = true := by
  unfold beforeRequest
  split
  -- `xdg_surface.set_window_geometry`
  case h_7 => exact absurd rfl hname
  -- `wl_surface.commit`
  case h_3 =>
    dsimp only
    split <;> rfl
  all_goals rfl

private theorem outcome_of_forward {obj : Obj} {desc : MessageDesc} {up : Option ObjectId} {m : Request}
    {answer : Answer} (ho : s.obj m.sender = some obj) (hkind : obj.kind = .upstream up)
    (hdesc : obj.iface.requests[m.opcode]? = some desc) (h : s.forward E obj desc up m answer = .ok s') :
    Outcome s (.request m answer) s' := by
  have hdestroys : s.destroys (.request m answer) = if desc.isDestructor then some m.sender else none := by
    simp only [destroys, ho, Option.bind_some, Obj.destroyedBy, hkind, hdesc, Option.any_some]
  have hbefore := Grown.of_quiet
    (s.quiet_beforeRequest (E := E) m.sender obj.iface.name desc.name m.args)
  rcases forward_cases h with ⟨hkept, rfl⟩ | ⟨out, _, _, rfl⟩
  · refine .stay hbefore fun hordinary => ?_
    have hname := (hordinary obj ho).2 desc hdesc
    rw [s.goes_beforeRequest m.sender m.args hname] at hkept
    cases hkept
  · generalize afterRequest E _ m.sender obj.iface.name desc.name _ = after
    generalize (s.beforeRequest E m.sender obj.iface.name desc.name m.args).1 = t at hbefore ⊢
    unfold complete
    generalize (if out.dead then none else up.bind fun _ => answer.sent) = sent
    have hpass := Grown.of_quiet (t.still_pass up sent desc.name out.args).toQuiet
    have hchild := Grown.createChild (E := E) (t.pass up sent desc.name out.args) out.child obj.version sent
    have hgrown := ((hbefore.trans hpass).trans hchild).trans
      (Grown.of_quiet (quiet_apply _ m.sender (out.child.map Prod.fst) after))
    dsimp only
    split
    · rename_i hdestructor
      rw [if_pos hdestructor] at hdestroys
      exact .gone m.sender _ hgrown hdestroys (fun _ => rfl) rfl
    · rename_i hdestructor
      rw [if_neg hdestructor] at hdestroys
      exact .stay hgrown fun _ => hdestroys

private theorem outcome_of_request {m : Request} {answer : Answer} (h : s.request E m answer = .ok s') :
    Outcome s (.request m answer) s' := by
  obtain ⟨o, desc, ho, hdesc, _, _, hcases⟩ := request_cases h
  have hdestroys : s.destroys (.request m answer) =
      if o.destroyedBy m.opcode then some m.sender else none := by
    simp only [destroys, ho, Option.bind_some]
  rcases hcases with ⟨hkind, h⟩ | ⟨hkind, h⟩ | ⟨toplevel, hkind, h⟩ | ⟨up, hkind, h⟩
  · -- The display
    simp only [Obj.destroyedBy, hkind] at hdestroys
    obtain ⟨child, name, up, _, _, _, rfl | ⟨args, rfl⟩⟩ := displayRequest_cases h
    · exact .stay (Grown.createForwarded s _ _ _ _ _) fun _ => hdestroys
    · exact .stay ((Grown.createForwarded s _ _ _ _ _).trans (Grown.note _ _)) fun _ => hdestroys
  · -- The decoration manager
    simp only [Obj.destroyedBy, hkind] at hdestroys
    rcases managerRequest_cases h with ⟨hopcode, rfl⟩ | ⟨hopcode, id, toplevel, _, rfl⟩
    · exact .gone m.sender s (Grown.refl s) (by simpa [hopcode] using hdestroys) (fun _ => rfl) rfl
    · exact .stay (Grown.create s _ _ _ _ _ _) fun _ => by simpa [hopcode] using hdestroys
  · -- A decoration
    simp only [Obj.destroyedBy, hkind] at hdestroys
    have hremoved := Grown.of_quiet (s.still_removeFrame toplevel.id).toQuiet
    rcases decorationRequest_cases h with ⟨hopcode, rfl⟩ | ⟨hopcode, hmode⟩
    · exact .gone m.sender _ hremoved (by simpa [hopcode] using hdestroys) (fun _ => rfl) rfl
    · refine .stay ?_ fun _ => by simpa [hopcode] using hdestroys
      rcases hmode with ⟨t, mode, ht, rfl⟩ | ⟨mode, _, rfl⟩ | ⟨mode, rfl⟩
      · exact (Grown.of_quiet (still_addFrame ht).toQuiet).trans (Grown.note _ _)
      · exact Grown.note s _
      · exact hremoved.trans (Grown.note _ _)
  · rcases hcases : h with ⟨hregistry, h⟩ | ⟨_, h⟩
    · -- A registry, which no request destroys
      refine .stay ?_ fun hordinary => absurd hregistry (hordinary o ho).1
      obtain ⟨child, _, _, ⟨version, rfl⟩ | ⟨global, version, up, name, _, rfl⟩⟩ := bind_cases h
      · exact Grown.create s _ _ _ _ _ _
      · exact Grown.createForwarded s _ _ _ _ _
    · exact outcome_of_forward ho hkind hdesc h

/-- An event that creates no object is not dropped at once. -/
theorem receive_isSome {desc : MessageDesc} {version : Nat} {alive : ObjectId → Bool}
    {args : List UpstreamArg} (h : ∀ a ∈ args, ∀ up, a ≠ .newId up) (s : State F) :
    (s.receive E desc version alive args).2.isSome := by
  induction args generalizing s with
  | nil => rfl
  | cons a args ih =>
      have hrest := ih (fun a' ha' => h a' (List.mem_cons_of_mem _ ha')) s
      cases a with
      | newId up => exact absurd rfl (h (.newId up) List.mem_cons_self up)
      | object up =>
          cases up with
          | none =>
              unfold receive received
              rw [Option.isSome_map]
              exact hrest
          | some up =>
              unfold receive
              split
              · unfold received
                rw [Option.isSome_map]
                exact hrest
              · unfold received
                rw [Option.isSome_map, Option.isSome_map]
                exact hrest
      | int _ | uint _ | fixed _ | str _ | array _ | fd _ =>
          unfold receive received
          rw [Option.isSome_map]
          exact hrest

private theorem outcome_of_event (s : State F) (e : Event) : Outcome s (.event e) (s.event E e) := by
  rcases s.event_cases (E := E) e with ⟨hno, hs⟩ | ⟨bridge, obj, desc, ht, ⟨hnone, hs⟩ | ⟨input, _, hs⟩⟩
  · have hreceiver : s.receiver e = none := by
      apply Option.eq_none_iff_forall_ne_some.mpr
      intro x hx
      exact hno x.1 x.2.1 x.2.2 (receiver_eq_some.mp hx)
    rw [hs]
    refine .stay (Grown.refl s) fun _ => ?_
    simp only [destroys, hreceiver, Option.bind_none]
  · rw [hs]
    refine .stay (Grown.receive s _ _ _ _) fun hordinary => ?_
    have hsome : (s.receive E desc obj.version e.alive e.args).2.isSome := receive_isSome hordinary s
    rw [hnone] at hsome
    cases hsome
  · have hdestroys : s.destroys (.event e) = if desc.isDestructor then some bridge else none := by
      simp only [destroys, receiver_eq_some.mpr ht, Option.bind_some]
    have hgrown := Grown.receive (E := E) s desc obj.version e.alive e.args
    generalize (s.receive E desc obj.version e.alive e.args).1 = t at hgrown hs
    replace hgrown := hgrown.trans (Grown.of_quiet
      (t.quiet_beforeEvent (E := E) bridge obj.iface.name desc.name input.hidden input.args))
    rw [hs]
    unfold deliver
    generalize t.beforeEvent E bridge obj.iface.name desc.name input.hidden input.args = out at hgrown ⊢
    have hwritten : Grown s (if out.2.2 then
        out.1.note (.event bridge e.sender desc.name e.args out.2.1) else out.1) := by
      split
      · exact hgrown.trans (Grown.note _ _)
      · exact hgrown
    dsimp only
    by_cases hdestructor : desc.isDestructor
    · rw [if_pos hdestructor] at hdestroys ⊢
      refine .gone bridge _ hwritten hdestroys (fun j => ?_) ?_ <;> cases input.child <;> rfl
    · rw [if_neg hdestructor] at hdestroys ⊢
      refine .stay (hwritten.same (fun j => ?_) ?_) fun _ => hdestroys <;> cases input.child <;> rfl

private theorem outcome_of_step {a : Action} (h : step E s a = some s') : Outcome s a s' := by
  cases a with
  | request m answer => exact outcome_of_request (toOption_eq_some.mp h)
  | event e =>
      cases h
      exact outcome_of_event s e
  | setOutput global geometry =>
      cases h
      exact .stay (Grown.of_quiet (s.still_setOutput global geometry).toQuiet) fun _ => rfl
  | close toplevel =>
      cases h
      exact .stay (Grown.of_quiet (s.still_close toplevel).toQuiet) fun _ => rfl

/-- An object that is gone after a step is the one that the message destroys. -/
theorem Outcome.destroys_of_gone {a : Action} (h : Outcome s a s') {id : Id} (hthere : (s.obj id).isSome)
    (hgone : s'.obj id = none) : s.destroys a = some id := by
  cases h with
  | stay hgrown _ =>
      have hsome := hgrown.objs id hthere
      rw [hgone] at hsome
      cases hsome
  | gone j v hgrown hdestroys hobj _ =>
      rw [hobj, obj_deleteId, obj_destroy] at hgone
      split at hgone
      · rename_i hid
        rw [hid]
        exact hdestroys
      · have hsome := hgrown.objs id hthere
        rw [hgone] at hsome
        cases hsome

/-- The object that a message destroys is gone after the step, which ends with telling the
bridge. -/
theorem Outcome.gone_of_destroys {a : Action} (h : Outcome s a s') (hordinary : s.Ordinary a) {id : Id}
    (hdestroys : s.destroys a = some id) :
    s'.obj id = none ∧ ∃ new, s'.log = s.log ++ new ++
      .destroyed id :: if id < serverIdStart then [.deleteId id] else [] := by
  cases h with
  | stay _ hnone => cases hdestroys.symm.trans (hnone hordinary)
  | gone j v hgrown hdestroys' hobj hlog =>
      obtain rfl := Option.some.inj (hdestroys'.symm.trans hdestroys)
      obtain ⟨new, hnew⟩ := hgrown.log
      refine ⟨?_, new, ?_⟩
      · rw [hobj, obj_deleteId, obj_destroy, if_pos rfl]
      · rw [hlog, log_destroyed, hnew]

end State

/-! ## Section 4: Runs -/

namespace State

/-- The ids are kept in every state the proxy comes to. -/
theorem idsKept_of_run {s : State F} {as : List Action}
    (hrun : run (Decorations.step E) (State.initial F E) as = some s) : s.IdsKept :=
  run_invariant (I := State.IdsKept) (fun _ _ _ h ha => h.step ha) (idsKept_initial F E) hrun

/-- What the bridge is told goes to the object that is meant. -/
theorem IdsKept.delivered {s : State F} (h : s.IdsKept) {before after : List Entry} {id : Id}
    {up : ObjectId} {name : String} {sent : List UpstreamArg} {written : List BridgeArg}
    (hlog : s.log = before ++ .event id up name sent written :: after) :
    ∃ older origin since, before = older ++ .created origin id (.upstream (some up)) :: since ∧
      ∀ e ∈ since, e.lifeOf id = false := by
  have hlives := h.lives id
  rw [hlog, run_append] at hlives
  obtain ⟨p, hp, hrest⟩ := Option.bind_eq_some_iff.mp hlives
  obtain ⟨q, hq, _⟩ := run_cons_eq_some.mp hrest
  rw [Phase.next, if_pos rfl] at hq
  split at hq
  · rename_i hlive
    rw [hlive] at hp
    rcases Phase.created_of_run hp with ⟨hfree, _⟩ | hcreated
    · cases hfree
    · exact hcreated
  · cases hq

end State

/-- In every run, the ids of the objects there are distinct; those the proxy gave out go up
from `serverIdStart`, none left out and none twice; every id goes through its phases, so
that it gets an object only while it is free; the bridge is told once of each object of
its own that ended; an event goes to the object that was created for its sender, and
that is still there; and every step ends the object that its message destroys, if there is
one, and no other. -/
theorem ids_kept (E : Setting F) {s : State F} {as : List Action}
    (hrun : run (step E) (State.initial F E) as = some s) :
    s.objects.keys.Nodup ∧
    serverIds s.log = List.range' serverIdStart (s.nextServerId - serverIdStart) ∧
    (∀ id, run (Phase.next id) .free s.log = some (s.phase id)) ∧
    (∀ id < serverIdStart, s.log.count (.deleteId id) = s.log.count (.destroyed id)) ∧
    (∀ before after id up name sent written,
      s.log = before ++ .event id up name sent written :: after →
      ∃ older origin since, before = older ++ .created origin id (.upstream (some up)) :: since ∧
        ∀ e ∈ since, e.lifeOf id = false) ∧
    ∀ a s', step E s a = some s' → ∀ id,
      ((s.obj id).isSome → s'.obj id = none → s.destroys a = some id) ∧
      (s.Ordinary a → s.destroys a = some id →
        s'.obj id = none ∧ ∃ new, s'.log = s.log ++ new ++
          .destroyed id :: if id < serverIdStart then [.deleteId id] else []) := by
  have hkept := State.idsKept_of_run hrun
  refine ⟨s.objects.nodupKeys, hkept.numbered, hkept.lives, ?_, ?_, ?_⟩
  · intro id hid
    have hcount := Phase.count_deleteId hid (hkept.lives id)
    -- A step does not end between the two entries.
    have hphase : s.phase id ≠ .gone := by
      unfold State.phase
      split
      · exact fun h => (nomatch h)
      · split <;> exact fun h => (nomatch h)
    rw [if_neg hphase] at hcount
    exact hcount.symm
  · intro before after id up name sent written hlog
    exact hkept.delivered hlog
  · intro a s' hs id
    have houtcome := State.outcome_of_step hs
    exact ⟨houtcome.destroys_of_gone, fun hordinary => houtcome.gone_of_destroys hordinary⟩

/-- Callbacks of the display, which end with their event. -/
def callbackTable (name : String) : Interface :=
  if name = "wl_display" then
    { name := name, requests :=
        [{ name := "sync", signature := [.newId], childInterface := some "wl_callback" }] }
  else
    { name := name, events := [{ name := "done", isDestructor := true, signature := [.uint] }] }

/-- An id is used twice, and the first object's event comes again. -/
def callbackRun : List Action :=
  [.request ⟨displayId, 0, [.newId 2]⟩ ⟨some 10, true⟩, .event { sender := 10, opcode := 0, args := [.uint 7] },
    .request ⟨displayId, 0, [.newId 2]⟩ ⟨some 11, true⟩, .event { sender := 10, opcode := 0, args := [.uint 7] }]

/-- The second object's event. -/
def callbackDone : Action :=
  .event { sender := 11, opcode := 0, args := [.uint 8] }

theorem ids_kept_example :
    ∃ s s', run (step (Setting.bare callbackTable)) (State.initial Unit (Setting.bare callbackTable))
        callbackRun = some s ∧
      s.log.count (.deleteId 2) = s.log.count (.destroyed 2) ∧
      step (Setting.bare callbackTable) s callbackDone = some s' ∧ s'.obj 2 = none ∧
      ∃ new, s'.log = s.log ++ new ++ [.destroyed 2, .deleteId 2] := by
  have hsome : ((run (step (Setting.bare callbackTable))
      (State.initial Unit (Setting.bare callbackTable)) callbackRun).any fun s =>
        s.destroys callbackDone = some 2) = true := by
    decide
  obtain ⟨s, hs, hdestroys⟩ := Option.any_eq_true _ _ |>.mp hsome
  replace hdestroys := of_decide_eq_true hdestroys
  have hids := ids_kept _ hs
  have hordinary : s.Ordinary callbackDone := by
    intro a ha up hup
    rw [List.mem_singleton.mp ha] at hup
    cases hup
  have hlast := (hids.2.2.2.2.2 callbackDone _ rfl 2).2 hordinary hdestroys
  rw [if_pos (by simp [serverIdStart])] at hlast
  exact ⟨s, _, hs, hids.2.2.2.1 2 (by simp [serverIdStart]), rfl, hlast⟩

end Psbox.Decorations
