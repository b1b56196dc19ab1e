import Psbox.Sandbox.Reload

/-!
# Overlay Refreshes

An overlay of a plan shows its source as it was when the overlay was made. When a task has written to the
source, `Supervisor::refresh` (`supervisor.rs`) replaces the overlay by a fresh one, with all that is mounted
beneath it: the new tree is put together detached and swapped in with `inject::replace`, which slips it
beneath the old overlay and then takes that away. A forwarded socket that the host has made again is
replaced in the same way (`Supervisor::reattach_socket`).

For each overlay the whole tree is seen, or nothing changes (`refresh_seen`).
-/

namespace Psbox.Sandbox

open Psbox.Foundations

/-- A recorded live mount, in the tree. -/
def LiveMount.mounted (lm : LiveMount) : Mounted String Source :=
  ⟨lm.place.path, .live lm.host.path lm.mode⟩

namespace Sup

/-! ## Section 1: Swapping in a Tree -/

/-- What fails in a refresh for reasons of the host or the kernel: the preparation of the overlay, by their
number the mounts of the plan after it and the live mounts beneath it, finding out what is mounted at the
place or making the place, moving the new tree there, and taking the old one away. -/
structure RefreshFaults where
  prepare : Bool := false
  inner : Nat → Bool := fun _ => false
  live : Nat → Bool := fun _ => false
  check : Bool := false
  move : Bool := false
  unmount : Bool := false

/-- `inject::replace`: the tree, and whether all of it was done. -/
def replace (T : Tree) (dst : Path) (fresh : Tree) (faults : RefreshFaults) : Tree × Bool :=
  match if faults.move then none else MountTree.slip fresh dst T with
  | none => (T, false)
  | some T' =>
      match if faults.unmount then none else T'.detach dst with
      | none => (T', false)
      | some T'' => (T'', true)

/-- `is_mount_point` -/
def isMountPoint (T : Tree) (dst : Path) : Bool :=
  (T.top dst).any fun t => t.place = dst

/-- Swaps in a new tree, or attaches it where nothing is mounted. -/
def swapIn (T : Tree) (dst : Path) (fresh : Tree) (faults : RefreshFaults) : Tree × Bool :=
  if faults.check then (T, false)
  else if isMountPoint T dst then replace T dst fresh faults
  else if faults.move then (T, false)
  else (fresh ++ T, true)

/-! ## Section 2: Refreshing -/

/-- `rebuild_within`, for the mounts of the plan after an overlay that are beneath it: what of them is
attached within the new one, in their order. `linked` are the paths of files that are symlinks there. -/
def rebuildWithin (host linked : Path → Bool) (dst : Path) : List Mount → (Nat → Bool) → Option (List Mount)
  | [], _ => some []
  | m :: ms, fault =>
      let rest := rebuildWithin host linked dst ms fun i => fault (i + 1)
      if m.dst ≠ dst ∧ dst <+: m.dst then
        if fault 0 then none
        else
          match m with
          | .dir _ | .symlink _ _ => rest
          -- A file was mounted at the target of the link, outside the overlay.
          | .file at_ _ => if linked at_ then rest else rest.map (m :: ·)
          | .bind _ _ _ _ =>
              match prepareMount host m false with
              | some true => rest.map (m :: ·)
              | some false => rest
              | none => none
          -- What is in them would be lost.
          | .tmpfs _ _ | .overlay _ _ _ | .proc _ | .dev _ => none
      else rest

/-- `live_tree` for the live mounts beneath an overlay. -/
def liveWithin (host : Path → Bool) : List LiveMount → (Nat → Bool) → Option (List LiveMount)
  | [], _ => some []
  | lm :: lms, fault =>
      if fault 0 ∨ !host lm.host.path then none
      else (liveWithin host lms fun i => fault (i + 1)).map (lm :: ·)

/-- The new overlay with what is mounted in it, in this order. -/
def freshTree (m : Mount) (inner : List Mount) (lives : List LiveMount) : Tree :=
  (lives.map LiveMount.mounted).reverse ++ ((inner.map Mount.mounted).reverse ++ [m.mounted])

/-- What `refresh_overlay` swaps in for an overlay between other mounts of the plan: it can fail, and there
may be nothing to swap in. -/
def overlayTree (s : Sup) (m : Mount) (earlier later : List Mount) (linked : Path → Bool) (faults : RefreshFaults) :
    Option (Option Tree) :=
  match prepareMount s.host m faults.prepare with
  | none => none
  | some false => some none
  | some true =>
      if ((earlier ++ later).any fun o => o.dst = m.dst) ∨ (later.any fun o => o.dst <+: m.dst) ∨
          (s.mounts.any fun lm => lm.place.path <+: m.dst) then none
      else
        match rebuildWithin s.host linked m.dst later faults.inner,
          liveWithin s.host (s.mounts.filter fun lm => lm.place.path ≠ m.dst ∧ m.dst <+: lm.place.path) faults.live with
        | some inner, some lives => some (some (freshTree m inner lives))
        | _, _ => none

/-- `Supervisor::refresh_overlay`: the tree, and the result, if it does not fail. -/
def refreshOverlay (s : Sup) (m : Mount) (earlier later : List Mount) (linked : Path → Bool)
    (faults : RefreshFaults) : Tree × Option Bool :=
  match s.overlayTree m earlier later linked faults with
  | none => (s.tree, none)
  | some none => (s.tree, some false)
  | some (some fresh) =>
      let out := swapIn s.tree m.dst fresh faults
      (out.1, if out.2 then some true else none)

/-- One round of `refresh`, for the mount of the plan with that number: the state, and whether something has
failed. `overlaps` are the sources that the task may have written to. -/
def refreshAt (overlaps linked : Path → Bool) (faults : Nat → RefreshFaults) (r : Sup × Bool) (i : Nat) : Sup × Bool :=
  match r.1.plan.mounts[i]? with
  | some (.overlay lower dst optional) =>
      if overlaps lower then
        let out := r.1.refreshOverlay (.overlay lower dst optional) (r.1.plan.mounts.take i)
          (r.1.plan.mounts.drop (i + 1)) linked (faults i)
        ({ r.1 with tree := out.1 }, r.2 || out.2.isNone)
      else r
  | _ => r

/-- `Supervisor::refresh` -/
def refresh (s : Sup) (overlaps linked : Path → Bool) (faults : Nat → RefreshFaults) : Sup × Bool :=
  (List.range s.plan.mounts.length).foldl (refreshAt overlaps linked faults) (s, false)

/-! ## Section 3: One Overlay -/

private theorem rebuildWithin_beneath {host linked : Path → Bool} {dst : Path} {ms inner : List Mount} {fault : Nat → Bool}
    (h : rebuildWithin host linked dst ms fault = some inner) : ∀ m ∈ inner, m ∈ ms ∧ m.dst ≠ dst ∧ dst <+: m.dst := by
  induction ms generalizing fault inner with
  | nil =>
      obtain rfl := Option.some.inj h
      simp
  | cons m ms ih =>
      have hskip : ∀ {inner}, rebuildWithin host linked dst ms (fun i => fault (i + 1)) = some inner →
          ∀ o ∈ inner, o ∈ m :: ms ∧ o.dst ≠ dst ∧ dst <+: o.dst := fun hrest o ho =>
        ⟨List.mem_cons_of_mem m (ih hrest o ho).1, (ih hrest o ho).2⟩
      unfold rebuildWithin at h
      dsimp only at h
      split at h
      · rename_i hbeneath
        have htake : (rebuildWithin host linked dst ms fun i => fault (i + 1)).map (m :: ·) = some inner →
            ∀ o ∈ inner, o ∈ m :: ms ∧ o.dst ≠ dst ∧ dst <+: o.dst := by
          intro hmap
          obtain ⟨rest, hrest, rfl⟩ := Option.map_eq_some_iff.mp hmap
          exact List.forall_mem_cons.mpr ⟨⟨List.mem_cons_self, hbeneath⟩, hskip hrest⟩
        split at h
        · cases h
        split at h
        · exact hskip h
        · exact hskip h
        · split at h
          · exact hskip h
          · exact htake h
        · split at h
          · exact htake h
          · exact hskip h
          · cases h
        all_goals cases h
      · exact hskip h

/-- What is there of them is rebuilt. -/
theorem mem_rebuildWithin {host linked : Path → Bool} {dst : Path} {ms inner : List Mount} {fault : Nat → Bool}
    (h : rebuildWithin host linked dst ms fault = some inner) (hlinked : ∀ m ∈ ms, linked m.dst = false) {m : Mount} :
    m ∈ inner ↔ m ∈ ms ∧ m.dst ≠ dst ∧ dst <+: m.dst ∧ Mount.present host m = true := by
  induction ms generalizing fault inner with
  | nil =>
      obtain rfl := Option.some.inj h
      simp
  | cons o ms ih =>
      have hrest : ∀ {inner}, rebuildWithin host linked dst ms (fun i => fault (i + 1)) = some inner →
          (m ∈ inner ↔ m ∈ ms ∧ m.dst ≠ dst ∧ dst <+: m.dst ∧ Mount.present host m = true) := fun hrest =>
        ih hrest fun m' hm' => hlinked m' (List.mem_cons_of_mem o hm')
      -- A mount that is left out, and one that is not.
      have hskip : ∀ {inner}, rebuildWithin host linked dst ms (fun i => fault (i + 1)) = some inner →
          ¬(o.dst ≠ dst ∧ dst <+: o.dst ∧ Mount.present host o = true) →
          (m ∈ inner ↔ m ∈ o :: ms ∧ m.dst ≠ dst ∧ dst <+: m.dst ∧ Mount.present host m = true) := by
        intro inner hsome hout
        rw [hrest hsome, List.mem_cons, or_and_right, or_iff_right]
        rintro ⟨rfl, hin⟩
        exact hout hin
      have htake : (rebuildWithin host linked dst ms fun i => fault (i + 1)).map (o :: ·) = some inner →
          o.dst ≠ dst ∧ dst <+: o.dst ∧ Mount.present host o = true →
          (m ∈ inner ↔ m ∈ o :: ms ∧ m.dst ≠ dst ∧ dst <+: m.dst ∧ Mount.present host m = true) := by
        intro hmap hin
        obtain ⟨rest, hsome, rfl⟩ := Option.map_eq_some_iff.mp hmap
        rw [List.mem_cons, List.mem_cons, hrest hsome, or_and_right]
        apply or_congr_left
        constructor
        · rintro rfl
          exact ⟨rfl, hin⟩
        · exact And.left
      unfold rebuildWithin at h
      dsimp only at h
      split at h
      · rename_i hbeneath
        split at h
        · cases h
        split at h
        · exact hskip h fun hin => by simp [Mount.present] at hin
        · exact hskip h fun hin => by simp [Mount.present] at hin
        · rename_i at_ content
          have hno : linked at_ = false := hlinked (.file at_ content) List.mem_cons_self
          rw [hno] at h
          exact htake h ⟨hbeneath.1, hbeneath.2, rfl⟩
        · split at h
          · rename_i hprepared
            exact htake h ⟨hbeneath.1, hbeneath.2, present_of_prepareMount hprepared⟩
          · rename_i hprepared
            exact hskip h fun hin => by simp [present_of_prepareMount hprepared] at hin
          · cases h
        all_goals cases h
      · rename_i hbeneath
        exact hskip h fun hin => hbeneath ⟨hin.1, hin.2.1⟩

private theorem liveWithin_eq {host : Path → Bool} {lms lives : List LiveMount} {fault : Nat → Bool}
    (h : liveWithin host lms fault = some lives) : lives = lms := by
  induction lms generalizing fault lives with
  | nil => exact (Option.some.inj h).symm
  | cons lm lms ih =>
      rw [liveWithin] at h
      split at h
      · cases h
      · obtain ⟨rest, hrest, rfl⟩ := Option.map_eq_some_iff.mp h
        rw [ih hrest]

/-- What is to be swapped in: everything it takes to get there. -/
structure Assembled (s : Sup) (m : Mount) (earlier later : List Mount) (linked : Path → Bool) (faults : RefreshFaults)
    (fresh : Tree) where
  inner : List Mount
  prepared : prepareMount s.host m faults.prepare = some true
  alone : ∀ o ∈ earlier ++ later, o.dst ≠ m.dst
  above : ∀ o ∈ later, ¬o.dst <+: m.dst
  live : ∀ lm ∈ s.mounts, ¬lm.place.path <+: m.dst
  rebuilt : rebuildWithin s.host linked m.dst later faults.inner = some inner
  tree : fresh = freshTree m inner (s.mounts.filter fun lm => lm.place.path ≠ m.dst ∧ m.dst <+: lm.place.path)

variable {s : Sup} {m : Mount} {earlier later : List Mount} {linked : Path → Bool} {faults : RefreshFaults} {fresh : Tree}

theorem assembled (h : s.overlayTree m earlier later linked faults = some (some fresh)) :
    Nonempty (Assembled s m earlier later linked faults fresh) := by
  unfold overlayTree at h
  split at h
  · cases h
  · cases h
  rename_i hprepared
  split at h
  · cases h
  rename_i hfree
  split at h
  · rename_i inner lives hinner hlives
    obtain rfl := liveWithin_eq hlives
    simp only [not_or, List.any_eq_true, not_exists, not_and, decide_eq_true_eq] at hfree
    exact ⟨{
      inner := inner
      prepared := hprepared
      alone := hfree.1
      above := hfree.2.1
      live := hfree.2.2
      rebuilt := hinner
      tree := (Option.some.inj (Option.some.inj h)).symm }⟩
  · cases h

namespace Assembled

/-- All of it is at the place of the overlay or beneath. -/
theorem beneath (h : Assembled s m earlier later linked faults fresh) : ∀ u ∈ fresh, m.dst <+: u.place := by
  intro u hu
  rw [h.tree, freshTree, List.mem_append, List.mem_append, List.mem_reverse, List.mem_reverse] at hu
  rcases hu with hlive | hinner | hself
  · obtain ⟨lm, hlm, rfl⟩ := List.mem_map.mp hlive
    exact (of_decide_eq_true (List.mem_filter.mp hlm).2).2
  · obtain ⟨o, ho, rfl⟩ := List.mem_map.mp hinner
    exact (rebuildWithin_beneath h.rebuilt o ho).2.2
  · obtain rfl := List.mem_singleton.mp hself
    exact List.prefix_refl _

theorem root (h : Assembled s m earlier later linked faults fresh) : ∃ u ∈ fresh, u.place = m.dst := by
  refine ⟨m.mounted, ?_, rfl⟩
  rw [h.tree]
  simp [freshTree]

end Assembled

/-- What comes of a mount that is replaced: nothing, the new tree beneath it, or the new tree. -/
theorem replace_cases (T : Tree) (dst : Path) (fresh : Tree) (faults : RefreshFaults) :
    replace T dst fresh faults = (T, false) ∨
      ∃ T', MountTree.slip fresh dst T = some T' ∧
        (replace T dst fresh faults = (T', false) ∨
          ∃ T'', T'.detach dst = some T'' ∧ replace T dst fresh faults = (T'', true)) := by
  unfold replace
  cases faults.move with
  | true => exact Or.inl rfl
  | false =>
      cases hslip : MountTree.slip fresh dst T with
      | none => exact Or.inl rfl
      | some T' =>
          refine Or.inr ⟨T', rfl, ?_⟩
          cases faults.unmount with
          | true => exact Or.inl rfl
          | false =>
              cases hdetach : T'.detach dst with
              | none =>
                  left
                  simp [hdetach]
              | some T'' =>
                  right
                  exact ⟨T'', rfl, by simp [hdetach]⟩

/-- The tree that is swapped in is seen at its place and beneath, or nothing changes. The old overlay may be
left in place, with the new one beneath it. -/
theorem swapIn_seen (T : Tree) {dst : Path} (hroot : ∃ u ∈ fresh, u.place = dst) (hfresh : ∀ u ∈ fresh, dst <+: u.place)
    (faults : RefreshFaults) (q : Path) :
    (swapIn T dst fresh faults).1.top q =
      if (swapIn T dst fresh faults).2 ∧ dst <+: q then fresh.top q else T.top q := by
  unfold swapIn
  split
  · simp
  split
  · rcases replace_cases T dst fresh faults with hsame | ⟨T', hslip, hhalf | ⟨T'', hdetach, hall⟩⟩
    · simp [hsame]
    · rw [hhalf]
      simpa using MountTree.top_slip hfresh hslip q
    · rw [hall]
      simpa using MountTree.top_replaced hroot hfresh hslip hdetach q
  split
  · simp
  · -- It is attached on top.
    simp only [true_and]
    rw [MountTree.top_append]
    split
    · rename_i hq
      obtain ⟨u, hu, rfl⟩ := hroot
      cases hnone : fresh.top q with
      | none => exact absurd hq (MountTree.top_eq_none.mp hnone u hu)
      | some t => rfl
    · rename_i hq
      have hnone : fresh.top q = none :=
        MountTree.top_eq_none.mpr fun u hu huq => hq ((hfresh u hu).trans huq)
      rw [hnone, Option.none_or]

/-- Where nothing is covered, what is swapped in is mounted, and so is what was there, except beneath it when
it takes the place of something. -/
theorem mem_swapIn {T : Tree} (hT : MountTree.Uncovered T) {dst : Path}
    {u : Mounted String Source} : u ∈ (swapIn T dst fresh faults).1 →
      u ∈ fresh ∨ u ∈ T := by
  unfold swapIn
  split
  · exact Or.inr
  split
  · rcases replace_cases T dst fresh faults with hsame | ⟨T', hslip, hhalf | ⟨T'', hdetach, hall⟩⟩
    · rw [hsame]
      exact Or.inr
    · rw [hhalf]
      obtain ⟨newer, t, older, rfl, _, _, rfl⟩ := MountTree.slip_eq_some.mp hslip
      simp only [List.mem_append, List.mem_cons]
      tauto
    · rw [hall]
      intro hu
      exact ((hT.mem_replaced hslip hdetach).mp hu).imp_right And.left
  split
  · exact Or.inr
  · exact List.mem_append.mp

theorem mem_swapIn_of_mem {T : Tree} (hT : MountTree.Uncovered T) {dst : Path} {u : Mounted String Source}
    (hu : u ∈ T) (hfresh : dst <+: u.place → u ∈ fresh) : u ∈ (swapIn T dst fresh faults).1 := by
  unfold swapIn
  split
  · exact hu
  split
  · rcases replace_cases T dst fresh faults with hsame | ⟨T', hslip, hhalf | ⟨T'', hdetach, hall⟩⟩
    · rw [hsame]
      exact hu
    · rw [hhalf]
      obtain ⟨newer, t, older, rfl, _, _, rfl⟩ := MountTree.slip_eq_some.mp hslip
      simp only [List.mem_append, List.mem_cons] at hu ⊢
      tauto
    · rw [hall]
      apply (hT.mem_replaced hslip hdetach).mpr
      by_cases hbeneath : dst <+: u.place
      · exact Or.inl (hfresh hbeneath)
      · exact Or.inr ⟨hu, hbeneath⟩
  split
  · exact hu
  · exact List.mem_append_right _ hu

/-! ## Section 4: All of Them -/

/-- An overlay with another one beneath it is not put together. -/
theorem no_overlay_beneath {host linked : Path → Bool} {dst : Path} {ms inner : List Mount} {fault : Nat → Bool}
    (h : rebuildWithin host linked dst ms fault = some inner) {lower at_ : Path} {optional : Bool}
    (hmem : .overlay lower at_ optional ∈ ms) (hne : at_ ≠ dst) : ¬dst <+: at_ := by
  induction ms generalizing fault inner with
  | nil => cases hmem
  | cons m ms ih =>
      unfold rebuildWithin at h
      dsimp only at h
      rcases List.mem_cons.mp hmem with rfl | hmem
      · intro hprefixed
        rw [if_pos ⟨hne, hprefixed⟩] at h
        split at h <;> cases h
      · have hrest : ∃ inner, rebuildWithin host linked dst ms (fun i => fault (i + 1)) = some inner := by
          rw [← Option.isSome_iff_exists]
          cases hnone : rebuildWithin host linked dst ms fun i => fault (i + 1) with
          | some _ => rfl
          | none =>
              -- What fails later fails all of it.
              rw [hnone] at h
              repeat' split at h
              all_goals first | rfl | cases h
        obtain ⟨_, hrest⟩ := hrest
        exact ih hrest hmem

/-- The overlay with this number in the plan is to be refreshed, and this is put together for it. -/
def Renews (s : Sup) (overlaps linked : Path → Bool) (faults : Nat → RefreshFaults) (i : Nat) (m : Mount)
    (fresh : Tree) : Prop :=
  s.plan.mounts[i]? = some m ∧ (∃ lower dst optional, m = .overlay lower dst optional ∧ overlaps lower = true) ∧
    s.overlayTree m (s.plan.mounts.take i) (s.plan.mounts.drop (i + 1)) linked (faults i) = some (some fresh)

variable {overlaps : Path → Bool} {flaws : Nat → RefreshFaults}

/-- None of them is at or beneath another one. -/
theorem Renews.apart {i j : Nat} {m m' : Mount} {fresh fresh' : Tree} (h : Renews s overlaps linked flaws i m fresh)
    (h' : Renews s overlaps linked flaws j m' fresh') (hne : i ≠ j) : ¬m.dst <+: m'.dst := by
  obtain ⟨hi, _, htree⟩ := h
  obtain ⟨hj, ⟨lower, dst, optional, rfl, _⟩, htree'⟩ := h'
  obtain ⟨hassembled⟩ := assembled htree
  obtain ⟨hassembled'⟩ := assembled htree'
  have hlater : ∀ {a b : Nat} {o : Mount}, a < b → s.plan.mounts[b]? = some o → o ∈ s.plan.mounts.drop (a + 1) := by
    intro a b o hlt ho
    apply List.mem_of_getElem? (i := b - (a + 1))
    rw [List.getElem?_drop, show a + 1 + (b - (a + 1)) = b by omega]
    exact ho
  rcases Nat.lt_or_gt_of_ne hne with hlt | hgt
  · have hmem := hlater hlt hj
    exact no_overlay_beneath hassembled.rebuilt hmem (hassembled.alone _ (List.mem_append_right _ hmem))
  · exact hassembled'.above m (hlater hgt hi)

/-- What has been refreshed, after some of the overlays. -/
structure Refreshed (s : Sup) (overlaps linked : Path → Bool) (faults : Nat → RefreshFaults) (k : Nat) (T : Tree)
    (failed : Bool) : Prop where
  renewed : ∀ i < k, ∀ m fresh, Renews s overlaps linked faults i m fresh → ∃ done : Bool,
    (done = false → failed = true) ∧ ∀ q, m.dst <+: q → T.top q = if done then fresh.top q else s.tree.top q
  elsewhere : ∀ q, (∀ i < k, ∀ m fresh, Renews s overlaps linked faults i m fresh → ¬m.dst <+: q) →
    T.top q = s.tree.top q
  complete : failed = false → ∀ i < k, ∀ lower dst optional,
    s.plan.mounts[i]? = some (.overlay lower dst optional) → overlaps lower = true → s.host lower = true →
      ∃ fresh, Renews s overlaps linked faults i (.overlay lower dst optional) fresh

/-- A round in which nothing is swapped in. -/
theorem Refreshed.skip {k : Nat} {T : Tree} {failed failed' : Bool} (h : Refreshed s overlaps linked flaws k T failed)
    (hnone : ∀ m fresh, ¬Renews s overlaps linked flaws k m fresh) (hfailed : failed = true → failed' = true)
    (hcomplete : failed' = false → ∀ lower dst optional, s.plan.mounts[k]? = some (.overlay lower dst optional) →
      overlaps lower = true → s.host lower = false) : Refreshed s overlaps linked flaws (k + 1) T failed' where
  renewed i hi m fresh hrenews := by
    rcases Nat.lt_succ_iff_lt_or_eq.mp hi with hlt | rfl
    · obtain ⟨done, hdone, hseen⟩ := h.renewed i hlt m fresh hrenews
      exact ⟨done, fun hnot => hfailed (hdone hnot), hseen⟩
    · exact absurd hrenews (hnone m fresh)
  elsewhere q hq := h.elsewhere q fun i hi => hq i (Nat.lt_succ_of_lt hi)
  complete hok i hi lower dst optional hmount hoverlaps hhost := by
    rcases Nat.lt_succ_iff_lt_or_eq.mp hi with hlt | rfl
    · have hokay : failed = false := by
        by_contra hfail
        rw [hfailed (by simpa using hfail)] at hok
        cases hok
      exact h.complete hokay i hlt lower dst optional hmount hoverlaps hhost
    · rw [hcomplete hok lower dst optional hmount hoverlaps] at hhost
      cases hhost

/-- A round in which a tree is swapped in, if that works. -/
theorem Refreshed.swap {k : Nat} {T : Tree} {failed : Bool} {m : Mount} (h : Refreshed s overlaps linked flaws k T failed)
    (hrenews : Renews s overlaps linked flaws k m fresh) :
    Refreshed s overlaps linked flaws (k + 1) (swapIn T m.dst fresh (flaws k)).1
      (failed || !(swapIn T m.dst fresh (flaws k)).2) := by
  obtain ⟨hassembled⟩ := assembled hrenews.2.2
  have hseen := swapIn_seen T hassembled.root hassembled.beneath (flaws k)
  constructor
  case renewed =>
    intro i hi m' fresh' hrenews'
    rcases Nat.lt_succ_iff_lt_or_eq.mp hi with hlt | rfl
    · obtain ⟨done, hdone, hbefore⟩ := h.renewed i hlt m' fresh' hrenews'
      refine ⟨done, fun hnot => by simp [hdone hnot], fun q hq => ?_⟩
      -- The later overlay has nothing to do with what is beneath the earlier one.
      have hnot : ¬m.dst <+: q := by
        intro hmq
        rcases List.prefix_or_prefix_of_prefix hmq hq with hprefixed | hprefixed
        · exact hrenews.apart hrenews' (Nat.ne_of_gt hlt) hprefixed
        · exact hrenews'.apart hrenews (Nat.ne_of_lt hlt) hprefixed
      rw [hseen, if_neg fun hboth => hnot hboth.2]
      exact hbefore q hq
    · obtain rfl : m' = m := Option.some.inj (hrenews'.1.symm.trans hrenews.1)
      obtain rfl : fresh' = fresh := Option.some.inj (Option.some.inj (hrenews'.2.2.symm.trans hrenews.2.2))
      refine ⟨(swapIn T m'.dst fresh' (flaws i)).2, fun hnot => by simp [hnot], fun q hq => ?_⟩
      rw [hseen]
      simp only [hq, and_true]
      split
      · rfl
      · apply h.elsewhere
        intro j hj o tree hother hoq
        rcases List.prefix_or_prefix_of_prefix hoq hq with hprefixed | hprefixed
        · exact hother.apart hrenews (Nat.ne_of_lt hj) hprefixed
        · exact hrenews.apart hother (Nat.ne_of_gt hj) hprefixed
  case elsewhere =>
    intro q hq
    rw [hseen, if_neg fun hboth => hq k (Nat.lt_succ_self k) m fresh hrenews hboth.2]
    exact h.elsewhere q fun i hi => hq i (Nat.lt_succ_of_lt hi)
  case complete =>
    intro hok i hi lower dst optional hmount hoverlaps hhost
    rcases Nat.lt_succ_iff_lt_or_eq.mp hi with hlt | rfl
    · exact h.complete (Bool.or_eq_false_iff.mp hok).1 i hlt lower dst optional hmount hoverlaps hhost
    · obtain rfl : m = .overlay lower dst optional := Option.some.inj (hrenews.1.symm.trans hmount)
      exact ⟨fresh, hrenews⟩

/-- One round. -/
theorem Refreshed.step {k : Nat} {T : Tree} {failed : Bool} (h : Refreshed s overlaps linked flaws k T failed) :
    ∃ T' failed', refreshAt overlaps linked flaws ({ s with tree := T }, failed) k = ({ s with tree := T' }, failed') ∧
      Refreshed s overlaps linked flaws (k + 1) T' failed' := by
  unfold refreshAt
  dsimp only
  split
  · rename_i lower dst optional hmount
    -- A writable overlay.
    split
    · rename_i hoverlaps
      have hsame : ∀ m earlier later faults, overlayTree { s with tree := T } m earlier later linked faults =
          s.overlayTree m earlier later linked faults := fun _ _ _ _ => rfl
      unfold refreshOverlay
      rw [hsame]
      split
      · -- Something cannot be put together.
        rename_i hnone
        refine ⟨T, true, by simp, h.skip ?_ (fun _ => rfl) (fun hok => by cases hok)⟩
        rintro m fresh ⟨hm, _, htree⟩
        obtain rfl := Option.some.inj (hm.symm.trans hmount)
        rw [hnone] at htree
        cases htree
      · -- There is nothing at the source.
        rename_i hnone
        refine ⟨T, failed, by simp, h.skip ?_ id ?_⟩
        · rintro m fresh ⟨hm, _, htree⟩
          obtain rfl := Option.some.inj (hm.symm.trans hmount)
          rw [hnone] at htree
          cases htree
        · intro _ lower' dst' optional' hmount' _
          obtain ⟨rfl, rfl, rfl⟩ := Mount.overlay.inj (Option.some.inj (hmount'.symm.trans hmount))
          unfold overlayTree at hnone
          split at hnone
          · cases hnone
          · rename_i hprepared
            have hpresent := present_of_prepareMount hprepared
            cases hhost : s.host lower' with
            | false => rfl
            | true => simp [Mount.present, hhost] at hpresent
          · split at hnone
            · cases hnone
            · split at hnone <;> cases hnone
      · rename_i fresh hfresh
        refine ⟨_, _, rfl, ?_⟩
        have hrenews : Renews s overlaps linked flaws k (.overlay lower dst optional) fresh :=
          ⟨hmount, ⟨lower, dst, optional, rfl, hoverlaps⟩, hfresh⟩
        have hswap := h.swap hrenews
        cases hdone : (swapIn T (Mount.overlay lower dst optional).dst fresh (flaws k)).2 <;> simpa [hdone] using hswap
    · -- The task had nothing to do with it.
      rename_i hoverlaps
      refine ⟨T, failed, rfl, h.skip ?_ id ?_⟩
      · rintro m fresh ⟨hm, ⟨lower', _, _, rfl, hoverlaps'⟩, _⟩
        obtain ⟨rfl, _, _⟩ := Mount.overlay.inj (Option.some.inj (hm.symm.trans hmount))
        exact hoverlaps hoverlaps'
      · intro _ lower' _ _ hmount' hoverlaps'
        obtain ⟨rfl, _, _⟩ := Mount.overlay.inj (Option.some.inj (hmount'.symm.trans hmount))
        exact absurd hoverlaps' hoverlaps
  -- Any other mount is passed over.
  · rename_i hother
    refine ⟨T, failed, rfl, h.skip ?_ id ?_⟩
    · rintro m fresh ⟨hm, ⟨lower, dst, optional, rfl, _⟩, _⟩
      exact hother lower dst optional hm
    · intro _ lower dst optional hmount _
      exact absurd hmount (hother lower dst optional)

end Sup

/-- A refresh, whatever fails in it. At each overlay for which everything can be put together, either the new
tree is seen, at all paths, or what was seen before is, at all paths, and the refresh fails. Elsewhere nothing
changes. A refresh that does not fail leaves out no overlay that the task may have written to, if its source
is there. -/
theorem refresh_seen (s : Sup) (overlaps linked : Path → Bool) (faults : Nat → Sup.RefreshFaults) :
    ∃ T failed, s.refresh overlaps linked faults = ({ s with tree := T }, failed) ∧
      (∀ i m fresh, Sup.Renews s overlaps linked faults i m fresh →
        (∀ q, m.dst <+: q → T.top q = fresh.top q) ∨ (failed = true ∧ ∀ q, m.dst <+: q → T.top q = s.tree.top q)) ∧
      (∀ q, (∀ i m fresh, Sup.Renews s overlaps linked faults i m fresh → ¬m.dst <+: q) → T.top q = s.tree.top q) ∧
      (failed = false → ∀ i lower dst optional, s.plan.mounts[i]? = some (.overlay lower dst optional) →
        overlaps lower = true → s.host lower = true →
          ∃ fresh, Sup.Renews s overlaps linked faults i (.overlay lower dst optional) fresh) := by
  have hrounds : ∀ k, ∃ T failed, (List.range k).foldl (Sup.refreshAt overlaps linked faults) (s, false) =
      ({ s with tree := T }, failed) ∧ Sup.Refreshed s overlaps linked faults k T failed := by
    intro k
    induction k with
    | zero => exact ⟨s.tree, false, rfl, by simp, fun _ _ => rfl, by simp⟩
    | succ k ih =>
        obtain ⟨T, failed, hfold, hrefreshed⟩ := ih
        rw [List.range_succ, List.foldl_append, hfold]
        exact hrefreshed.step
  obtain ⟨T, failed, hfold, hrefreshed⟩ := hrounds s.plan.mounts.length
  have hbound : ∀ {i : Nat} {m : Mount}, s.plan.mounts[i]? = some m → i < s.plan.mounts.length := fun h =>
    (List.getElem?_eq_some_iff.mp h).1
  refine ⟨T, failed, hfold, ?_, ?_, ?_⟩
  · intro i m fresh hrenews
    obtain ⟨done, hdone, hseen⟩ := hrefreshed.renewed i (hbound hrenews.1) m fresh hrenews
    cases done with
    | true => exact Or.inl hseen
    | false => exact Or.inr ⟨hdone rfl, hseen⟩
  · exact fun q hq => hrefreshed.elsewhere q fun i _ => hq i
  · exact fun hok i lower dst optional hmount => hrefreshed.complete hok i (hbound hmount) lower dst optional hmount

end Psbox.Sandbox
