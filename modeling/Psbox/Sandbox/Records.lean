import Psbox.Foundations.Runs
import Psbox.Sandbox.Supervisor

/-!
# Records of Live Mounts

The supervisor keeps a flat list of the live mounts, the kernel a stack for each place. Here are the
requests to mount and umount and the file dialog's mounts, those that succeed, and what it takes for
the list to say what the stacks are.
-/

namespace Psbox.Sandbox

open Psbox.Foundations

/-! ## Section 1: Records and Stacks -/

/-- The host path and the mode of a live mount. -/
def Source.asLive : Source → Option (Path × MountMode)
  | .live host mode => some (host, mode)
  | .plan _ => none

def LiveMount.what (lm : LiveMount) : Path × MountMode :=
  (lm.host.path, lm.mode)

namespace Sup

/-- The records of the live mounts at a place. -/
def recordsAt (s : Sup) (p : Path) : List LiveMount :=
  s.mounts.filter fun lm => lm.place.path = p

/-- What is recorded of a place, in its order. -/
def recorded (s : Sup) (p : Path) : List (Path × MountMode) :=
  (s.recordsAt p).map LiveMount.what

/-- The live mounts at a place, the topmost last. -/
def attached (s : Sup) (p : Path) : List (Path × MountMode) :=
  ((s.tree.stack p).filterMap Source.asLive).reverse

/-- The records of the live mounts at a place are the live mounts there. -/
def Matches (s : Sup) : Prop :=
  ∀ p, s.recorded p = s.attached p

/-- The live mounts are newer than those of the plan. -/
def Layered (s : Sup) : Prop :=
  ∃ live built, s.tree = live ++ built ∧ (∀ t ∈ live, t.what.asLive.isSome) ∧ ∀ t ∈ built, t.what.asLive = none

/-! ## Section 2: Requests -/

/-- What a request does that succeeds. Reloads are no part of this. -/
def succeed (lossy : String → String) (s : Sup) : Action → Option Sup
  | .appear p => some (s.step lossy (.appear p))
  | .mount src dst mode ok => s.mount lossy src dst mode ok
  | .umount dst ok => s.umount dst ok
  | .expose h create made ok =>
      match s.expose lossy h create made ok with
      | (s', some _) => some s'
      | (_, none) => none
  | .reload _ _ => none

/-- A mount that was asked for can be undone by an umount of the same place. -/
def Undoable (s s' : Sup) : Action → Prop
  | .mount _ dst _ _ => ∃ t, s'.umount dst true = some t ∧ t.tree = s.tree
  | _ => True

/-- A path that is the same when it was written down and read again. -/
def Readable (lossy : String → String) (p : Spelling) : Prop :=
  Spelling.path (p.map lossy) = p.path

/-- From the first that is written as an umount writes it, the records of a place are all alike. -/
def AlikeAt (s : Sup) (p : Path) : Prop :=
  ∀ lm ∈ (s.recordsAt p).dropWhile (fun lm => lm.place ≠ p),
    ∀ lm' ∈ (s.recordsAt p).dropWhile (fun lm => lm.place ≠ p), lm.what = lm'.what

/-- What a request needs to leave the records in order. -/
def Orderly (lossy : String → String) (s : Sup) : Action → Prop
  | .mount src dst _ _ =>
      Readable lossy src ∧ Readable lossy dst ∧ (dst.map lossy = dst.path ∨ ∃ lm ∈ s.mounts, lm.place = dst.path)
  | .umount dst _ => s.AlikeAt dst.path ∧ ∀ t ∈ s.tree.newer dst.path, ¬dst.path <+: t.place
  | .expose h _ _ _ => s.visibleAt h = none → ∀ file ∈ fileName h,
      Readable lossy h ∧ Readable lossy (s.plan.runtimeDir ++ ["doc", toString (s.docs + 1), file])
  | .appear _ | .reload _ _ => True

/-! ## Section 3: Mounting -/

/-- A live mount is made and recorded. -/
structure Pushed (lossy : String → String) (s s' : Sup) (src dst : Spelling) (mode : MountMode) : Prop where
  tree : s'.tree = s.tree.attach dst.path (.live src.path mode)
  mounts : s'.mounts = s.mounts ++ [{ host := src.map lossy, place := dst.map lossy, mode := mode }]

theorem mount_pushed {lossy : String → String} {s s' : Sup} {src dst : Spelling} {mode : MountMode} {ok : Bool}
    (h : s.mount lossy src dst mode ok = some s') : Pushed lossy s s' src dst mode := by
  unfold mount at h
  split at h
  · cases h
  split at h
  · cases h
  split at h
  · cases h
  split at h
  · obtain rfl := Option.some.inj h
    exact ⟨rfl, rfl⟩
  · cases h

variable {lossy : String → String} {s s' : Sup} {src dst : Spelling} {mode : MountMode}

namespace Pushed

theorem recorded (h : Pushed lossy s s' src dst mode) (p : Path) :
    s'.recorded p = s.recorded p ++ if Spelling.path (dst.map lossy) = p then [(Spelling.path (src.map lossy), mode)] else [] := by
  unfold Sup.recorded recordsAt
  rw [h.mounts, List.filter_append, List.map_append]
  by_cases hplace : Spelling.path (dst.map lossy) = p
  · simp [hplace, LiveMount.what]
  · simp [hplace]

theorem attached (h : Pushed lossy s s' src dst mode) (p : Path) :
    s'.attached p = s.attached p ++ if dst.path = p then [(src.path, mode)] else [] := by
  unfold Sup.attached
  rw [h.tree, MountTree.stack_attach]
  by_cases hplace : dst.path = p
  · simp [hplace, Source.asLive]
  · simp [hplace]

/-- The records still match when the paths are read as they were meant. -/
theorem matches_iff (h : Pushed lossy s s' src dst mode) (hm : s.Matches) :
    s'.Matches ↔ Readable lossy src ∧ Readable lossy dst := by
  constructor
  · intro hm'
    have hplace := hm' dst.path
    rw [h.recorded, h.attached, hm dst.path, if_pos rfl] at hplace
    -- The two lists grew by one each.
    have hone := List.append_cancel_left hplace
    split at hone
    · rename_i hdst
      simp only [List.cons.injEq, Prod.mk.injEq, and_true] at hone
      exact ⟨hone, hdst⟩
    · cases hone
  · rintro ⟨hsrc, hdst⟩ p
    rw [h.recorded, h.attached, hm p, hsrc, hdst]

private theorem layered (h : Pushed lossy s s' src dst mode) (hl : s.Layered) : s'.Layered := by
  obtain ⟨live, built, htree, hlive, hbuilt⟩ := hl
  refine ⟨⟨dst.path, .live src.path mode⟩ :: live, built, ?_, ?_, hbuilt⟩
  · rw [h.tree, htree]
    rfl
  · exact List.forall_mem_cons.mpr ⟨rfl, hlive⟩

end Pushed

/-- A mount is undone exactly when an umount finds a record. -/
theorem Pushed.undoable_iff (h : Pushed lossy s s' src dst mode) :
    (∃ t, s'.umount dst true = some t ∧ t.tree = s.tree) ↔
      dst.map lossy = dst.path ∨ ∃ lm ∈ s.mounts, lm.place = dst.path := by
  have hdetach : s'.tree.detach dst.path = some s.tree := by
    rw [h.tree]
    exact MountTree.detach_attach _ _ _
  -- The umount looks for a record with the place written so.
  have hfound : (∃ lm ∈ s'.mounts, lm.place = dst.path) ↔
      dst.map lossy = dst.path ∨ ∃ lm ∈ s.mounts, lm.place = dst.path := by
    rw [h.mounts]
    simp [or_and_right, exists_or, or_comm]
  rw [← hfound]
  unfold umount
  constructor
  · rintro ⟨t, ht, _⟩
    split at ht
    · cases ht
    · rename_i i hi
      obtain ⟨hlt, hplace, _⟩ := List.findIdx?_eq_some_iff_getElem.mp hi
      exact ⟨_, List.getElem_mem hlt, by simpa using hplace⟩
  · rintro ⟨lm, hlm, hplace⟩
    -- It finds the record just made.
    have hsome : (s'.mounts.findIdx? fun m => decide (m.place = dst.path)).isSome := by
      rw [List.findIdx?_isSome, List.any_eq_true]
      exact ⟨lm, hlm, by simpa using hplace⟩
    obtain ⟨i, hi⟩ := Option.isSome_iff_exists.mp hsome
    rw [hi]
    simp [hdetach]

/-! ## Section 4: Umounting -/

/-- All elements of a list are the same when its first and its last can be exchanged. -/
theorem tail_eq_dropLast_iff {α : Type} {l : List α} : l.tail = l.dropLast ↔ ∀ a ∈ l, ∀ b ∈ l, a = b := by
  -- By induction; all are the same if the first can take the place of the last.
  induction l with
  | nil => simp
  | cons x l ih =>
      cases l with
      | nil => simp
      | cons y l =>
          rw [List.dropLast_cons_cons, List.tail_cons, List.cons.injEq]
          change (_ ∧ (y :: l).tail = _) ↔ _
          rw [ih]
          constructor
          · rintro ⟨rfl, hall⟩ a ha b hb
            have hin : ∀ c ∈ y :: y :: l, c ∈ y :: l := fun c hc => by simpa using hc
            exact hall a (hin a ha) b (hin b hb)
          · intro hall
            refine ⟨hall y (by simp) x (by simp), fun a ha b hb => ?_⟩
            exact hall a (List.mem_cons_of_mem x ha) b (List.mem_cons_of_mem x hb)

/-- What an umount takes away of the records, and what of the mounts. -/
structure Popped (s s' : Sup) (p : Path) where
  before : List LiveMount
  record : LiveMount
  after : List LiveMount
  top : Mounted String Source
  older : Tree
  mounts : s.mounts = before ++ record :: after
  place : record.place = p
  first : ∀ lm ∈ before, lm.place ≠ p
  mounts' : s'.mounts = before ++ after
  tree : s.tree = MountTree.newer s.tree p ++ top :: older
  top_place : top.place = p
  tree' : s'.tree = (MountTree.newer s.tree p).filter (fun u => ¬p <+: u.place) ++ older

theorem path_path (s : Spelling) : Spelling.path s.path = s.path := by
  unfold Spelling.path
  rw [List.filter_filter]
  simp

theorem umount_popped {s s' : Sup} {dst : Spelling} {ok : Bool} (h : s.umount dst ok = some s') :
    Nonempty (Popped s s' dst.path) := by
  unfold umount at h
  split at h
  · cases h
  rename_i i hi
  split at h
  · obtain ⟨T, hT, rfl⟩ := Option.map_eq_some_iff.mp h
    obtain ⟨top, older, htree, htop, htree'⟩ := MountTree.detach_newer hT
    have herase : s.mounts.eraseIdx i = s.mounts.eraseP fun m => decide (m.place = dst.path) := by
      rw [List.eraseP_eq_eraseIdx, hi]
    obtain ⟨hlt, hplace, _⟩ := List.findIdx?_eq_some_iff_getElem.mp hi
    have hmem : s.mounts[i] ∈ s.mounts := List.getElem_mem hlt
    obtain ⟨record, before, after, hfirst, hrecord, hmounts, herased⟩ :=
      List.exists_of_eraseP (p := fun m : LiveMount => decide (m.place = dst.path)) hmem hplace
    exact ⟨{
      before := before
      record := record
      after := after
      top := top
      older := older
      mounts := hmounts
      place := of_decide_eq_true hrecord
      first := fun lm hlm => by simpa using hfirst lm hlm
      mounts' := herase.trans herased
      tree := htree
      top_place := htop
      tree' := htree' }⟩
  · cases h

namespace Popped

variable {s s' : Sup} {p : Path}

private theorem recordsAt_eq (h : Popped s s' p) (hp : Spelling.path p = p) :
    s.recordsAt p = h.before.filter (fun lm => lm.place.path = p) ++
      h.record :: h.after.filter fun lm => lm.place.path = p := by
  -- The record that goes is of this place.
  have hplace : h.record.place.path = p := by rw [h.place, hp]
  unfold Sup.recordsAt
  rw [h.mounts, List.filter_append, List.filter_cons_of_pos (by simpa using hplace)]

/-- The record that goes is the first that is written so. -/
theorem dropWhile_recordsAt (h : Popped s s' p) (hp : Spelling.path p = p) :
    (s.recordsAt p).dropWhile (fun lm => lm.place ≠ p) =
      h.record :: h.after.filter fun lm => lm.place.path = p := by
  rw [h.recordsAt_eq hp, List.dropWhile_append_of_pos, List.dropWhile_cons_of_neg (by simp [h.place])]
  intro lm hlm
  exact decide_eq_true (h.first lm (List.mem_of_mem_filter hlm))

/-- The records that are found, and those before them. -/
theorem recordsAt (h : Popped s s' p) (hp : Spelling.path p = p) :
    ∃ before after : List LiveMount, s.recordsAt p = before ++ h.record :: after ∧
      s'.recordsAt p = before ++ after ∧
      (s.recordsAt p).dropWhile (fun lm => lm.place ≠ p) = h.record :: after := by
  refine ⟨_, _, h.recordsAt_eq hp, ?_, h.dropWhile_recordsAt hp⟩
  unfold Sup.recordsAt
  rw [h.mounts', List.filter_append]

/-- Elsewhere the records stay. -/
theorem recorded_of_ne (h : Popped s s' p) (hp : Spelling.path p = p) {q : Path} (hq : q ≠ p) :
    s'.recorded q = s.recorded q := by
  unfold recorded Sup.recordsAt
  have hplace : ¬h.record.place.path = q := by
    rw [h.place, hp]
    exact Ne.symm hq
  rw [h.mounts, h.mounts', List.filter_append, List.filter_append, List.filter_cons_of_neg (by simpa using hplace)]

theorem ne_of_newer {t : Mounted String Source} (ht : t ∈ MountTree.newer s.tree p) : t.place ≠ p := by
  simpa using List.mem_takeWhile_imp ht

/-- With a live mount at the place, that is what is on top, and all that is newer is live too. -/
theorem live (h : Popped s s' p) (hl : s.Layered) (hsome : s.attached p ≠ []) :
    ∃ live built, h.older = live ++ built ∧ (∀ t ∈ MountTree.newer s.tree p, t.what.asLive.isSome) ∧
      h.top.what.asLive.isSome ∧ (∀ t ∈ live, t.what.asLive.isSome) ∧ ∀ t ∈ built, t.what.asLive = none := by
  obtain ⟨live, built, htree, hlive, hbuilt⟩ := hl
  obtain ⟨x, hx⟩ := List.exists_mem_of_ne_nil _ hsome
  obtain ⟨what, hwhat, hlivewhat⟩ := List.mem_filterMap.mp (List.mem_reverse.mp hx)
  have hmem := MountTree.mem_stack.mp hwhat
  rw [htree, List.mem_append] at hmem
  have hin : (⟨p, what⟩ : Mounted String Source) ∈ live := by
    refine hmem.resolve_right fun hbelow => ?_
    rw [hbuilt _ hbelow] at hlivewhat
    cases hlivewhat
  -- the first at the place is among the live ones
  have hsplit : live ++ built = MountTree.newer s.tree p ++ h.top :: h.older := by
    rw [← htree]
    exact h.tree
  rcases List.append_eq_append_iff.mp hsplit with ⟨rest, hnewer, _⟩ | ⟨rest, hlives, hrest⟩
  · have hne : (⟨p, what⟩ : Mounted String Source) ∈ MountTree.newer s.tree p := by
      rw [hnewer]
      exact List.mem_append_left _ hin
    exact absurd rfl (ne_of_newer hne)
  · cases rest with
    | nil =>
        rw [List.append_nil] at hlives
        rw [hlives] at hin
        exact absurd rfl (ne_of_newer hin)
    | cons t rest =>
        obtain ⟨rfl, holder⟩ := List.cons.inj hrest
        rw [hlives] at hlive
        refine ⟨rest, built, holder, fun u hu => hlive u ?_, hlive _ ?_, fun u hu => hlive u ?_, hbuilt⟩
        · exact List.mem_append_left _ hu
        · exact List.mem_append_right _ List.mem_cons_self
        · exact List.mem_append_right _ (List.mem_cons_of_mem _ hu)

private theorem layered (h : Popped s s' p) (hl : s.Layered) (hsome : s.attached p ≠ []) : s'.Layered := by
  obtain ⟨live, built, holder, hnewer, _, hlive, hbuilt⟩ := h.live hl hsome
  refine ⟨(MountTree.newer s.tree p).filter (fun u => ¬p <+: u.place) ++ live, built, ?_, ?_, hbuilt⟩
  · rw [h.tree', holder, List.append_assoc]
  · intro t ht
    rcases List.mem_append.mp ht with ht | ht
    · exact hnewer t (List.mem_of_mem_filter ht)
    · exact hlive t ht

/-- At the place the topmost goes. -/
theorem attached_self (h : Popped s s' p) {x : Path × MountMode} (hx : h.top.what.asLive = some x) :
    s.attached p = s'.attached p ++ [x] := by
  -- At its own place nothing else is changed.
  have hnone : ∀ T : Tree, (∀ t ∈ T, t.place ≠ p) → MountTree.stack T p = [] := by
    intro T hT
    unfold MountTree.stack
    rw [List.map_eq_nil_iff, List.filter_eq_nil_iff]
    exact fun t ht => by simpa using hT t ht
  have hbefore : MountTree.stack s.tree p = h.top.what :: MountTree.stack h.older p := by
    have htop : MountTree.stack (h.top :: h.older) p = h.top.what :: MountTree.stack h.older p := by
      unfold MountTree.stack
      rw [List.filter_cons_of_pos (by simp [h.top_place]), List.map_cons]
    calc MountTree.stack s.tree p
        = MountTree.stack (MountTree.newer s.tree p) p ++ MountTree.stack (h.top :: h.older) p := by
          rw [← MountTree.stack_append, ← h.tree]
      _ = h.top.what :: MountTree.stack h.older p := by
          rw [hnone _ fun t => ne_of_newer, List.nil_append, htop]
  have hafter : MountTree.stack s'.tree p = MountTree.stack h.older p := by
    rw [h.tree', MountTree.stack_append, hnone _ fun t ht => ne_of_newer (List.mem_of_mem_filter ht),
      List.nil_append]
  unfold Sup.attached
  rw [hbefore, hafter, List.filterMap_cons_some hx, List.reverse_cons]

/-- Elsewhere it is what is newer and beneath the place that goes. -/
theorem attached_of_ne (h : Popped s s' p) {q : Path} (hq : q ≠ p) :
    s.attached q = s'.attached q ++
      if p <+: q then ((MountTree.stack (MountTree.newer s.tree p) q).filterMap Source.asLive).reverse else [] := by
  have hbefore : MountTree.stack s.tree q =
      MountTree.stack (MountTree.newer s.tree p) q ++ MountTree.stack h.older q := by
    have htop : MountTree.stack (h.top :: h.older) q = MountTree.stack h.older q := by
      unfold MountTree.stack
      rw [List.filter_cons_of_neg (by simpa [h.top_place] using Ne.symm hq)]
    rw [← htop, ← MountTree.stack_append, ← h.tree]
  have hafter : MountTree.stack s'.tree q =
      MountTree.stack ((MountTree.newer s.tree p).filter fun u => ¬p <+: u.place) q ++
        MountTree.stack h.older q := by
    rw [h.tree', MountTree.stack_append]
  -- What goes is beneath the place.
  have hkept : MountTree.stack ((MountTree.newer s.tree p).filter fun u => ¬p <+: u.place) q =
      if p <+: q then [] else MountTree.stack (MountTree.newer s.tree p) q := by
    unfold MountTree.stack
    rw [List.filter_filter]
    split
    · rename_i hbeneath
      rw [List.map_eq_nil_iff, List.filter_eq_nil_iff]
      intro u _ hu
      simp only [Bool.and_eq_true, decide_eq_true_eq] at hu
      exact hu.2 (hu.1 ▸ hbeneath)
    · rename_i hbeneath
      congr 1
      apply List.filter_congr
      intro u _
      -- At the place asked for, or elsewhere.
      by_cases hu : u.place = q
      · simp [hu, hbeneath]
      · simp [hu]
  unfold Sup.attached
  rw [hbefore, hafter, hkept]
  split
  · rw [List.nil_append, List.filterMap_append, List.reverse_append]
  · rw [List.append_nil]

/-- The records still match when it does not matter which of those at the place went, and nothing went
beneath it. -/
theorem matches_iff (h : Popped s s' p) (hp : Spelling.path p = p) (hm : s.Matches) (hl : s.Layered) :
    s'.Matches ↔ s.AlikeAt p ∧ ∀ t ∈ MountTree.newer s.tree p, ¬p <+: t.place := by
  obtain ⟨before, after, hrecords, hrecords', hfrom⟩ := h.recordsAt hp
  have hrecorded : s.recorded p = before.map LiveMount.what ++ (h.record :: after).map LiveMount.what := by
    unfold Sup.recorded
    rw [hrecords, List.map_append]
  have hrecorded' : s'.recorded p = before.map LiveMount.what ++ after.map LiveMount.what := by
    unfold Sup.recorded
    rw [hrecords', List.map_append]
  -- There is a mount, as there is a record.
  have hsome : s.attached p ≠ [] := by
    rw [← hm p, hrecorded]
    simp
  obtain ⟨_, _, _, hnewer, htop, _, _⟩ := h.live hl hsome
  obtain ⟨x, hx⟩ := Option.isSome_iff_exists.mp htop
  have halike : s.AlikeAt p ↔
      ((h.record :: after).map LiveMount.what).tail = ((h.record :: after).map LiveMount.what).dropLast := by
    unfold AlikeAt
    rw [hfrom, tail_eq_dropLast_iff]
    simp only [List.forall_mem_map]
  -- What is recorded before, and without its last, against what is recorded after.
  have hself : s'.recorded p = s'.attached p ↔ s.AlikeAt p := by
    -- Both lists lose one: the records any, the mounts the last.
    have hboth : before.map LiveMount.what ++ (h.record :: after).map LiveMount.what = s'.attached p ++ [x] := by
      rw [← hrecorded, hm p, h.attached_self hx]
    have hlast := congrArg List.dropLast hboth
    rw [List.dropLast_concat, List.dropLast_append_of_ne_nil (by simp)] at hlast
    rw [halike, hrecorded', ← hlast, List.append_cancel_left_eq]
    rfl
  constructor
  · intro hm'
    refine ⟨hself.mp (hm' p), fun t ht hbeneath => ?_⟩
    have hne := ne_of_newer ht
    have hgone := h.attached_of_ne hne
    rw [if_pos hbeneath, ← hm t.place, ← hm' t.place, h.recorded_of_ne hp hne] at hgone
    have hnil : (MountTree.stack (MountTree.newer s.tree p) t.place).filterMap Source.asLive = [] := by
      rw [← List.reverse_eq_nil_iff]
      exact List.self_eq_append_right.mp hgone
    obtain ⟨y, hy⟩ := Option.isSome_iff_exists.mp (hnewer t ht)
    -- A newer mount beneath the place goes without its record.
    have hmem : y ∈ (MountTree.stack (MountTree.newer s.tree p) t.place).filterMap Source.asLive :=
      List.mem_filterMap.mpr ⟨t.what, MountTree.mem_stack.mpr ht, hy⟩
    rw [hnil] at hmem
    cases hmem
  · rintro ⟨hall, hnone⟩ q
    -- The place of the umount, or another.
    by_cases hq : q = p
    · rw [hq]
      exact hself.mpr hall
    · have hgone := h.attached_of_ne hq
      have hnil : MountTree.stack (MountTree.newer s.tree p) q = [] ∨ ¬p <+: q := by
        -- Nothing there was beneath the place.
        by_cases hbeneath : p <+: q
        · left
          unfold MountTree.stack
          rw [List.map_eq_nil_iff, List.filter_eq_nil_iff]
          intro u hu hplace
          exact hnone u hu (of_decide_eq_true hplace ▸ hbeneath)
        · exact Or.inr hbeneath
      rw [h.recorded_of_ne hp hq, hm q, hgone]
      rcases hnil with hnil | hbeneath
      · simp [hnil]
      · simp [hbeneath]

end Popped

/-! ## Section 5: Runs -/

/-- A file dialog mounts a file unless the sandbox sees it. -/
theorem expose_answers {s s' : Sup} {h p : Spelling} {create made ok : Bool}
    (hs : s.expose lossy h create made ok = (s', some p)) :
    (s.visibleAt h = some p ∧ s'.mounts = s.mounts ∧ s'.tree = s.tree) ∨
      (s.visibleAt h = none ∧ ∃ file, fileName h = some file ∧
        p = s.plan.runtimeDir ++ ["doc", toString (s.docs + 1), file] ∧
        Pushed lossy s s' h (s.plan.runtimeDir ++ ["doc", toString (s.docs + 1), file]) .readWrite) := by
  -- What is made on the host first matters to neither.
  -- Making the file comes before anything is looked up.
  have hmade : ∀ host : Path → Bool, Sup.visibleAt { s with host := host } h = s.visibleAt h := fun _ => rfl
  obtain ⟨host, hhost⟩ : ∃ host, (if create = true then { s with host := fun p => decide (p = h.path) || s.host p }
      else s) = { s with host := host } := by
    split <;> exact ⟨_, rfl⟩
  unfold expose at hs
  split at hs
  · cases hs
  rw [hhost] at hs
  dsimp only at hs
  split at hs
  · rename_i q hvisible
    cases hs
    exact Or.inl ⟨(hmade host).symm.trans hvisible, rfl, rfl⟩
  · rename_i hvisible
    split at hs
    · cases hs
    · rename_i file hfile
      split at hs
      · rename_i t hmount
        cases hs
        have hpushed := mount_pushed hmount
        exact Or.inr ⟨(hmade host).symm.trans hvisible, file, hfile, rfl, hpushed.tree, hpushed.mounts⟩
      · cases hs

private theorem succeed_expose {s s' : Sup} {h : Spelling} {create made ok : Bool}
    (hs : s.succeed lossy (.expose h create made ok) = some s') :
    ∃ p, s.expose lossy h create made ok = (s', some p) := by
  unfold succeed at hs
  dsimp only at hs
  split at hs
  · rename_i t p hexpose
    obtain rfl := Option.some.inj hs
    exact ⟨p, hexpose⟩
  · cases hs

private theorem attached_ne_nil {s s' : Sup} {p : Path} (h : Popped s s' p) (hp : Spelling.path p = p) (hm : s.Matches) :
    s.attached p ≠ [] := by
  obtain ⟨before, after, hrecords, _⟩ := h.recordsAt hp
  rw [← hm p]
  unfold recorded
  rw [hrecords]
  simp

/-- A request leaves the records right exactly when it is orderly. -/
theorem succeed_iff {s s' : Sup} (hm : s.Matches) (hl : s.Layered) {a : Action}
    (hs : s.succeed lossy a = some s') : s'.Matches ∧ Undoable s s' a ↔ s.Orderly lossy a := by
  -- By the kind of request.
  cases a with
  | appear p =>
      obtain rfl := Option.some.inj hs
      exact iff_of_true ⟨hm, trivial⟩ trivial
  | mount src dst mode ok =>
      have hpushed := mount_pushed hs
      unfold Undoable Orderly
      dsimp only
      rw [hpushed.matches_iff hm, hpushed.undoable_iff, and_assoc]
  | umount dst ok =>
      obtain ⟨hpopped⟩ := umount_popped hs
      unfold Undoable Orderly
      dsimp only
      rw [and_true, hpopped.matches_iff (path_path dst) hm hl]
  | expose h create made ok =>
      unfold Undoable Orderly
      dsimp only
      rw [and_true]
      obtain ⟨p, hexpose⟩ := succeed_expose hs
      -- The file is seen already, or it is mounted.
      rcases expose_answers hexpose with ⟨hvisible, hmounts, htree⟩ | ⟨hvisible, file, hfile, _, hpushed⟩
      · have hm' : s'.Matches := by
          intro q
          unfold recorded recordsAt attached
          rw [hmounts, htree]
          exact hm q
        exact iff_of_true hm' fun hnone => by rw [hvisible] at hnone; cases hnone
      · rw [hpushed.matches_iff hm]
        constructor
        · intro hboth _ file' hfile'
          obtain rfl := Option.some.inj (hfile.symm.trans hfile')
          exact hboth
        · intro hall
          exact hall hvisible file hfile
  | reload new faults => cases hs

private theorem Layered.succeed {s s' : Sup} (hl : s.Layered) (hm : s.Matches) {a : Action}
    (hs : s.succeed lossy a = some s') : s'.Layered := by
  cases a with
  | appear p =>
      obtain rfl := Option.some.inj hs
      exact hl
  | mount src dst mode ok => exact (mount_pushed hs).layered hl
  | umount dst ok =>
      obtain ⟨hpopped⟩ := umount_popped hs
      exact hpopped.layered hl (attached_ne_nil hpopped (path_path dst) hm)
  | expose h create made ok =>
      obtain ⟨p, hexpose⟩ := succeed_expose hs
      rcases expose_answers hexpose with ⟨_, _, htree⟩ | ⟨_, _, _, _, hpushed⟩
      · obtain ⟨live, built, hsplit, hboth⟩ := hl
        exact ⟨live, built, htree.trans hsplit, hboth⟩
      · exact hpushed.layered hl
  | reload new faults => cases hs

private theorem start_tree (plan : Plan) (host : Path → Bool) :
    ∀ t ∈ (Sup.start plan host).tree, t.what.asLive = none := by
  -- Mount by mount; those of a plan are not live.
  have hbuild : ∀ (ms : List Mount) (T : Tree), (∀ t ∈ T, t.what.asLive = none) →
      ∀ t ∈ ms.foldl (fun T m => MountTree.attach T m.dst (.plan m)) T, t.what.asLive = none := by
    intro ms
    induction ms with
    | nil => exact fun T hT => hT
    | cons m ms ih =>
        intro T hT
        exact ih _ (List.forall_mem_cons.mpr ⟨rfl, hT⟩)
  exact hbuild _ [] (by simp)

private theorem start_matches (plan : Plan) (host : Path → Bool) : (Sup.start plan host).Matches := by
  intro p
  -- There are no live mounts yet.
  have hnone : (Sup.start plan host).attached p = [] := by
    unfold attached
    rw [List.reverse_eq_nil_iff, List.filterMap_eq_nil_iff]
    exact fun what hwhat => start_tree plan host _ (MountTree.mem_stack.mp hwhat)
  rw [hnone]
  rfl

/-- The record of the live mount that is seen at its place is the last one there. -/
theorem Matches.seen {s : Sup} (h : s.Matches) {p : Path} {t : Mounted String Source} {x : Path × MountMode}
    (htop : MountTree.top s.tree p = some t) (hplace : t.place = p) (hx : t.what.asLive = some x) :
    (s.recorded p).getLast? = some x := by
  obtain ⟨below, hstack⟩ := MountTree.stack_of_top htop hplace
  rw [h p]
  unfold attached
  rw [hstack, List.filterMap_cons_some hx, List.reverse_cons, List.getLast?_concat]

end Sup

/-- In every run of requests that succeed, the records are the live mounts in every state and every mount
that was asked for can be undone, exactly when every request is orderly. -/
theorem records_match_iff (lossy : String → String) (plan : Plan) (host : Path → Bool) (as : List Action) :
    (Sup.start plan host).Matches ∧
      (StepsMeet (Sup.succeed lossy)
          (fun s a => ∀ s', s.succeed lossy a = some s' → s'.Matches ∧ Sup.Undoable s s' a)
          (Sup.start plan host) as ↔
        StepsMeet (Sup.succeed lossy) (fun s a => (s.succeed lossy a).isSome → s.Orderly lossy a)
          (Sup.start plan host) as) ∧
      ∀ s : Sup, s.Matches → ∀ p t x, MountTree.top s.tree p = some t → t.place = p → t.what.asLive = some x →
        (s.recorded p).getLast? = some x := by
  -- Nothing is recorded, and nothing live is mounted.
  have hinit : (Sup.start plan host).Matches ∧ (Sup.start plan host).Layered :=
    ⟨Sup.start_matches plan host, [], _, rfl, by simp, Sup.start_tree plan host⟩
  refine ⟨hinit.1, ?_, fun s h p t x htop hplace hx => h.seen htop hplace hx⟩
  apply stepsMeet_iff_of_inv (I := fun s => s.Matches ∧ s.Layered) _ _ hinit
  · rintro s a s' ⟨hm, hl⟩ horderly hs
    have hright := (Sup.succeed_iff hm hl hs).mpr (horderly (by rw [hs]; rfl))
    exact ⟨hright.1, hl.succeed hm hs⟩
  · rintro s a ⟨hm, hl⟩
    constructor
    · intro hright hsome
      obtain ⟨s', hs⟩ := Option.isSome_iff_exists.mp hsome
      exact (Sup.succeed_iff hm hl hs).mp (hright s' hs)
    · intro horderly s' hs
      exact (Sup.succeed_iff hm hl hs).mpr (horderly (by rw [hs]; rfl))

/-- Two directories are mounted at one place, and the upper one is taken away. -/
def upperTakenAway : List Action :=
  [.mount ["srv", "a"] ["mnt", "x"] .readWrite true, .mount ["srv", "b"] ["mnt", "x"] .readOnly true,
    .umount ["mnt", "x"] true]

/-- The record that goes is the one of the lower mount. -/
theorem not_matches_upperTakenAway :
    ∃ plan s, Plan.build (.instance_ "app" none) {} plainHost = .ok plan ∧
      run (Sup.succeed id) (Sup.start plan fun _ => true) upperTakenAway = some s ∧ ¬s.Matches := by
  obtain ⟨plan, hplan⟩ : ∃ plan, Plan.build (.instance_ "app" none) {} plainHost = .ok plan := ⟨_, rfl⟩
  have hrun : (run (Sup.succeed id) (Sup.start plan fun _ => true) upperTakenAway).any fun s =>
      decide (s.recorded ["mnt", "x"] ≠ s.attached ["mnt", "x"]) := by
    cases hplan
    decide
  obtain ⟨s, hs, hdiffer⟩ := exists_of_any hrun
  exact ⟨plan, s, hplan, hs, fun h => of_decide_eq_true hdiffer (h ["mnt", "x"])⟩

end Psbox.Sandbox
