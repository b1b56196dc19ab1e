import Psbox.Foundations.Exchange
import Psbox.Sandbox.Restarts

/-!
# Live Reloads

A reload changes the mounts of a running sandbox: `diff` (`plan.rs`) says what to detach and what to
attach, from the two plans alone, and `Supervisor::apply` (`supervisor.rs`) does it, one path after the
other. Here the outcome is compared with the root that `root::build` makes of the new plan.

What stays is what both plans have, but for what is beneath a place that changes. It stays where it is in
the tree, and what comes is attached on top of it. A fresh start mounts in the order of the plan, where a
mount that stays may come after one that is new, and cover it (`reload_fresh_iff`).
-/

namespace Psbox.Sandbox

open Psbox.Foundations

/-! ## Section 1: What is Exchanged -/

/-- A mount of a plan, in the tree. -/
def Mount.mounted (m : Mount) : Mounted String Source :=
  ⟨m.dst, .plan m⟩

theorem Mount.mounted_injective : Function.Injective Mount.mounted := by
  intro m m' h
  simpa [Mount.mounted] using (Mounted.mk.inj h).2

namespace Plan

/-- What neither goes nor comes: a mount of both plans that is not beneath a change. -/
def keeps (old new : Plan) (m : Mount) : Bool :=
  m ∈ old.mounts && m ∈ new.mounts && !beneath (changed old new) m

theorem keeps_iff {old new : Plan} {m : Mount} :
    keeps old new m = true ↔ m ∈ old.mounts ∧ m ∈ new.mounts ∧ beneath (changed old new) m = false := by
  simp [keeps, and_assoc]

private theorem dropped_eq (old new : Plan) : dropped old new = old.mounts.reverse.filter fun m => !keeps old new m := by
  apply List.filter_congr
  intro m hm
  have hold : m ∈ old.mounts := List.mem_reverse.mp hm
  by_cases hnew : m ∈ new.mounts <;> simp [keeps, hold, hnew]

theorem added_eq (old new : Plan) : added old new = new.mounts.filter fun m => !keeps old new m := by
  apply List.filter_congr
  intro m hnew
  by_cases hold : m ∈ old.mounts <;> simp [keeps, hold, hnew]

theorem mem_dropped {old new : Plan} {m : Mount} :
    m ∈ dropped old new ↔ m ∈ old.mounts ∧ keeps old new m = false := by
  simp [dropped_eq]

theorem mem_added {old new : Plan} {m : Mount} :
    m ∈ added old new ↔ m ∈ new.mounts ∧ keeps old new m = false := by
  simp [added_eq]

/-- What goes or comes has a changed place, or one beneath. -/
theorem exists_changed {old new : Plan} {m : Mount} (h : m ∈ dropped old new ∨ m ∈ added old new) :
    ∃ d ∈ changed old new, d <+: m.dst := by
  have hplace : m ∉ old.mounts ∨ m ∉ new.mounts ∨ beneath (changed old new) m = true := by
    by_contra hnone
    push Not at hnone
    have hkeeps : keeps old new m = true := keeps_iff.mpr ⟨hnone.1, hnone.2.1, by simpa using hnone.2.2⟩
    rcases h with h | h
    · rw [(mem_dropped.mp h).2] at hkeeps
      cases hkeeps
    · rw [(mem_added.mp h).2] at hkeeps
      cases hkeeps
  rcases hplace with hold | hnew | hbeneath
  · have hadded : m ∈ new.mounts := (mem_added.mp (h.resolve_left fun hd => hold (mem_dropped.mp hd).1)).1
    refine ⟨m.dst, List.mem_map.mpr ⟨m, ?_, rfl⟩, List.prefix_refl _⟩
    exact List.mem_append_right _ (List.mem_filter.mpr ⟨hadded, by simpa using hold⟩)
  · have hdropped : m ∈ old.mounts := (mem_dropped.mp (h.resolve_right fun ha => hnew (mem_added.mp ha).1)).1
    refine ⟨m.dst, List.mem_map.mpr ⟨m, ?_, rfl⟩, List.prefix_refl _⟩
    exact List.mem_append_left _ (List.mem_filter.mpr ⟨hdropped, by simpa using hnew⟩)
  · obtain ⟨d, hd, hprefixed⟩ := List.any_eq_true.mp hbeneath
    simp only [Bool.decide_and, Bool.and_eq_true, decide_eq_true_eq] at hprefixed
    exact ⟨d, hd, hprefixed.2⟩

/-- What is beneath a mount that goes or comes does not stay. -/
theorem place_of_keeps {old new : Plan} {m u : Mount} (h : m ∈ dropped old new ∨ m ∈ added old new)
    (hkeeps : keeps old new u = true) (hprefixed : m.dst <+: u.dst) : m.dst = u.dst := by
  by_contra hne
  obtain ⟨d, hd, hplace⟩ := exists_changed h
  have hbeneath : beneath (changed old new) u = true := by
    refine List.any_eq_true.mpr ⟨d, hd, ?_⟩
    have hdu : u.dst ≠ d := by
      rintro rfl
      exact hne (hprefixed.eq_of_length (Nat.le_antisymm hprefixed.length_le hplace.length_le))
    simpa [hdu] using hplace.trans hprefixed
  rw [(keeps_iff.mp hkeeps).2.2] at hbeneath
  cases hbeneath

/-- Nothing that stays is where something goes or comes. -/
def Apart (old new : Plan) : Prop :=
  ∀ m ∈ dropped old new ++ added old new, ∀ u ∈ old.mounts, keeps old new u = true → m.dst ≠ u.dst

instance (old new : Plan) : Decidable (Apart old new) :=
  inferInstanceAs (Decidable (∀ m ∈ dropped old new ++ added old new, ∀ u ∈ old.mounts, _ → m.dst ≠ u.dst))

/-- Then nothing that stays is beneath it either. -/
theorem Apart.not_prefix {old new : Plan} (h : Apart old new) {m u : Mount}
    (hm : m ∈ dropped old new ∨ m ∈ added old new) (hkeeps : keeps old new u = true) : ¬m.dst <+: u.dst :=
  fun hprefixed => h m (List.mem_append.mpr hm) u (keeps_iff.mp hkeeps).1 hkeeps (place_of_keeps hm hkeeps hprefixed)

/-! ## Section 2: Reloads Without a Restart -/

/-- Reasons for other than mounts are all retained. -/
theorem mem_retained {new : Plan} {reasons : List Reason} {r : Reason} (hr : r ∈ reasons)
    (hother : ∀ dst, r ≠ .mountAt dst) : r ∈ retained new reasons := by
  have hpass : ∀ (l : List Reason) (c : Prop) [Decidable c] (p : Reason → Bool), p r = true → r ∈ l →
      r ∈ if c then l.filter p else l := by
    intro l c _ p hp hl
    split
    · exact List.mem_filter.mpr ⟨hl, hp⟩
    · exact hl
  unfold retained
  extract_lets keep x11 links network home
  have hkeep : ∀ drop, keep r drop = true := by
    intro drop
    cases r <;> first | rfl | exact absurd rfl (hother _)
  have hx11 : r ∈ x11 := hpass _ _ _ (hkeep _) hr
  have hlinks : r ∈ links := hpass _ _ _ (hkeep _) hx11
  have hnetwork : r ∈ network := hpass _ _ _ (hkeep _) hlinks
  exact List.mem_eraseDups.mpr (hpass _ _ _ (hkeep _) hnetwork)

/-- Reasons that are about mounts alone are retained too. -/
theorem retained_eq_nil {new : Plan} {reasons : List Reason} (h : retained new reasons = []) : reasons = [] := by
  have hmounts : ∀ r ∈ reasons, ∃ dst, r = .mountAt dst := by
    intro r hr
    by_contra hother
    have hmem : r ∈ retained new reasons := mem_retained hr fun dst heq => hother ⟨dst, heq⟩
    rw [h] at hmem
    cases hmem
  have hno : ∀ r : Reason, (∀ dst, r ≠ .mountAt dst) → r ∉ reasons := by
    intro r hother hr
    obtain ⟨dst, heq⟩ := hmounts r hr
    exact hother dst heq
  -- None of the passes has anything to leave out.
  unfold retained at h
  extract_lets keep x11 links network home at h
  have hx11 : x11 = reasons := if_neg (hno _ (by simp))
  have hlinks : links = reasons := by
    refine Eq.trans (if_neg ?_) hx11
    rw [hx11]
    exact not_or.mpr ⟨hno _ (by simp), hno _ (by simp)⟩
  have hnetwork : network = reasons := by
    refine Eq.trans (if_neg ?_) hlinks
    rw [hlinks]
    exact hno _ (by simp)
  have hhome : home = reasons := by
    refine Eq.trans (if_neg ?_) hnetwork
    rw [hnetwork]
    exact hno _ (by simp)
  rw [hhome] at h
  by_contra hne
  obtain ⟨r, hr⟩ := List.exists_mem_of_ne_nil _ hne
  have hmem := List.mem_eraseDups.mpr hr
  rw [h] at hmem
  cases hmem

variable {old new : Plan}

private theorem mountReasons_eq_nil {ms : List Mount} (h : mountReasons ms = []) : ∀ m ∈ ms, liveMount m = true := by
  simpa [mountReasons] using h

private theorem live_of_restart (h : (old.diff new).restart = []) :
    ∀ m, m ∈ dropped old new ∨ m ∈ added old new → liveMount m = true := by
  rw [restart_diff] at h
  have hnil := retained_eq_nil h
  simp only [List.append_eq_nil_iff] at hnil
  rintro m (hm | hm)
  · exact mountReasons_eq_nil hnil.1.2 m hm
  · exact mountReasons_eq_nil hnil.2 m hm

/-- Without a restart, all that goes is detached and all that comes is attached. -/
theorem diff_of_restart (h : (old.diff new).restart = []) :
    (old.diff new).detach = dropped old new ∧ (old.diff new).attach = added old new := by
  have hlive := live_of_restart h
  have hnone : retained new (settingReasons old new ++ mountReasons (dropped old new) ++
      mountReasons (added old new)) = [] := by
    rw [← restart_diff]
    exact h
  unfold diff
  simp only [hnone, ne_eq, not_true_eq_false, if_false]
  exact ⟨List.filter_eq_self.mpr fun m hm => hlive m (Or.inl hm),
    List.filter_eq_self.mpr fun m hm => hlive m (Or.inr hm)⟩

end Plan

/-! ## Section 3: What a Reload Does to the Tree -/

/-- The root is made of the mounts that are there, the last one on top. -/
theorem buildRoot_eq (host : Path → Bool) (mounts : List Mount) :
    buildRoot host mounts = ((mounts.filter (Mount.present host)).map Mount.mounted).reverse := by
  have hfold : ∀ (ms : List Mount) (T : Tree), ms.foldl (fun T m => MountTree.attach T m.dst (.plan m)) T =
      (ms.map Mount.mounted).reverse ++ T := by
    intro ms
    induction ms with
    | nil => exact fun T => rfl
    | cons m ms ih =>
        intro T
        rw [List.foldl_cons, ih, List.map_cons, List.reverse_cons, List.append_assoc]
        rfl
  rw [buildRoot, hfold, List.append_nil]

namespace Sup

/-- What can be attached live is prepared when its source is there. -/
theorem present_of_prepareMount {host : Path → Bool} {m : Mount} {fault there : Bool}
    (h : prepareMount host m fault = some there) : Mount.present host m = there := by
  unfold prepareMount at h
  split at h
  · rename_i src _ _ optional
    cases hsrc : host src <;> cases optional <;> cases fault <;> simp_all [Mount.present]
  · rename_i src _ optional
    cases hsrc : host src <;> cases optional <;> cases fault <;> simp_all [Mount.present]
  · cases fault <;> simp_all [Mount.present]
  · cases h

private theorem prepareAll_eq {host : Path → Bool} {ms prepared : List Mount} {fault : Nat → Bool}
    (h : prepareAll host ms fault = some prepared) : prepared = ms.filter (Mount.present host) := by
  induction ms generalizing fault prepared with
  | nil =>
      obtain rfl := Option.some.inj h
      rfl
  | cons m ms ih =>
      rw [prepareAll] at h
      split at h
      · rename_i rest hm hrest
        obtain rfl := Option.some.inj h
        rw [List.filter_cons_of_pos (present_of_prepareMount hm), ih hrest]
      · rename_i rest hm hrest
        obtain rfl := Option.some.inj h
        rw [List.filter_cons_of_neg (by simp [present_of_prepareMount hm]), ih hrest]
      · cases h

/-- With no failures of the kernel's own, or none recorded, the places are detached one after the other. -/
theorem detachAll_tree {ms : List Mount} {fault : Nat → Bool} {T : Tree}
    (h : (∀ i, fault i = false) ∨ (detachAll ms fault T).2 = []) :
    (detachAll ms fault T).1 = MountTree.detachEach (ms.map Mount.dst) T := by
  induction ms generalizing fault T with
  | nil => rfl
  | cons m ms ih =>
      rw [detachAll] at h ⊢
      rw [List.map_cons, MountTree.detachEach]
      split at h
      · rename_i T' hdetach
        split at hdetach
        · cases hdetach
        · rw [hdetach, Option.getD_some]
          exact ih (h.imp_left fun hno i => hno (i + 1))
      · rename_i hnone
        dsimp only at h ⊢
        split
        · rename_i hnever
          have hfault : fault 0 = false := by simpa using hnever.2
          rw [if_pos hnever] at h
          rw [hfault] at hnone
          have hdetach : T.detach m.dst = none := hnone
          rw [hdetach, Option.getD_none]
          exact ih (h.imp_left fun hno i => hno (i + 1))
        · rename_i hrecorded
          rw [if_neg hrecorded] at h
          have hno := h.resolve_right (List.cons_ne_nil _ _)
          rw [hno 0] at hnone
          have hdetach : T.detach m.dst = none := hnone
          rw [hdetach, Option.getD_none]
          exact ih (Or.inl fun i => hno (i + 1))

/-- In the same way, the mounts are attached one on top of the other. -/
theorem placeAll_tree {ms : List Mount} {fault : Nat → Bool} {T : Tree}
    (h : (∀ i, fault i = false) ∨ (placeAll ms fault T).2 = []) :
    (placeAll ms fault T).1 = (ms.map Mount.mounted).reverse ++ T := by
  induction ms generalizing fault T with
  | nil => rfl
  | cons m ms ih =>
      rw [placeAll] at h ⊢
      have hfault : fault 0 = false := by
        rcases h with hno | hnil
        · exact hno 0
        · by_contra hfault
          rw [if_pos (by simpa using hfault)] at hnil
          exact List.cons_ne_nil _ _ hnil
      rw [if_neg (by simp [hfault])] at h ⊢
      rw [ih (h.imp_left fun hno i => hno (i + 1)), List.map_cons, List.reverse_cons, List.append_assoc]
      rfl

/-- A reload that needs a restart changes the reasons alone. -/
theorem apply_restart {lossy : String → String} {s s' : Sup} {new : Plan} {faults : Faults} (h : s.apply lossy new faults = some s')
    (hrestart : (s.plan.diff new).restart ≠ []) :
    s' = { s with pendingRestart := (s.plan.diff new).restart ++ s.unapplied } := by
  unfold apply at h
  split at h
  · cases h
  · dsimp only at h
    rw [if_pos hrestart] at h
    exact (Option.some.inj h).symm

/-- A reload that needs no restart and gets as far as detaching anything. -/
theorem apply_live {lossy : String → String} {s s' : Sup} {new : Plan} {faults : Faults}
    (h : s.apply lossy new faults = some s') (hrestart : (s.plan.diff new).restart = []) :
    let detached := detachAll (Plan.dropped s.plan new) faults.detach s.tree
    let placed := placeAll ((Plan.added s.plan new).filter (Mount.present s.host)) faults.place detached.1
    let failed := (detached.2 ++ placed.2).map Reason.mountAt
    let touched := Change.touches (s.plan.diff new)
    s' =
      { remountAll lossy (s.mounts.filter touched) faults.remount
          { s with plan := new, tree := placed.1, mounts := s.mounts.filter fun lm => !touched lm } with
        unapplied := s.unapplied ++ failed
        pendingRestart := s.unapplied ++ failed } := by
  unfold apply at h
  split at h
  · cases h
  dsimp only at h
  rw [if_neg (by simp [hrestart])] at h
  obtain ⟨prepared, hprepared, rfl⟩ := Option.map_eq_some_iff.mp h
  obtain ⟨hdetach, hattach⟩ := Plan.diff_of_restart hrestart
  rw [hattach] at hprepared
  obtain rfl := prepareAll_eq hprepared
  -- What is remounted carries no reasons along.
  have hsame := sameReasons_remountAll lossy (s.mounts.filter (Change.touches (s.plan.diff new))) faults.remount
    { s with
      plan := new
      tree := (placeAll ((Plan.added s.plan new).filter (Mount.present s.host)) faults.place
        (detachAll (s.plan.diff new).detach faults.detach s.tree).1).1
      mounts := s.mounts.filter fun lm => !Change.touches (s.plan.diff new) lm }
  rw [← hdetach]
  dsimp only
  rw [hsame.unapplied]

/-- With no live mounts there is nothing else to it. -/
theorem tree_apply {lossy : String → String} {s s' : Sup} {new : Plan} {faults : Faults}
    (h : s.apply lossy new faults = some s') (hmounts : s.mounts = []) (hrestart : (s.plan.diff new).restart = []) :
    s'.tree = (placeAll ((Plan.added s.plan new).filter (Mount.present s.host)) faults.place
      (detachAll (Plan.dropped s.plan new) faults.detach s.tree).1).1 := by
  rw [apply_live h hrestart]
  simp only [hmounts, List.filter_nil, remountAll]

end Sup

/-! ## Section 4: Against a Fresh Start -/

/-- Whether a mount stays in a reload. Live mounts are not among what is exchanged. -/
def Mounted.stays (old new : Plan) (t : Mounted String Source) : Bool :=
  match t.what with
  | .plan m => Plan.keeps old new m
  | .live _ _ => true

/-- What is left of a root in parts, when it is parted by its mounts. -/
theorem filter_buildRoot (host : Path → Bool) (mounts : List Mount) {p : Mounted String Source → Bool}
    {keep : Mount → Bool} (h : ∀ m, p m.mounted = keep m) :
    (buildRoot host mounts).filter p = buildRoot host (mounts.filter keep) := by
  have hcomp : p ∘ Mount.mounted = keep := funext h
  rw [buildRoot_eq, buildRoot_eq, List.filter_reverse, List.filter_map, hcomp, List.filter_filter,
    List.filter_filter]
  congr 2
  apply List.filter_congr
  intro m _
  exact Bool.and_comm _ _

theorem mem_buildRoot {host : Path → Bool} {mounts : List Mount} {t : Mounted String Source} :
    t ∈ buildRoot host mounts ↔ ∃ m ∈ mounts, Mount.present host m = true ∧ m.mounted = t := by
  simp [buildRoot_eq, and_assoc]

/-- A reload in a sandbox that was just started: the kernel is left with what stays, and what comes is on
top of it. -/
theorem Sup.tree_reload {lossy : String → String} {old new : Plan} {host : Path → Bool} {s : Sup}
    (hapart : Plan.Apart old new) (hrestart : (old.diff new).restart = [])
    (h : (Sup.start old host).apply lossy new {} = some s) (q : Path) :
    s.tree.top q = MountTree.top (buildRoot host (Plan.added old new) ++
      buildRoot host (old.mounts.filter (Plan.keeps old new))) q := by
  have htree : s.tree = buildRoot host (Plan.added old new) ++
      MountTree.detachEach ((Plan.dropped old new).map Mount.dst) (buildRoot host old.mounts) := by
    have hs := Sup.tree_apply h rfl hrestart
    simp only [Sup.start] at hs
    rw [hs, Sup.placeAll_tree (Or.inl fun _ => rfl), Sup.detachAll_tree (Or.inl fun _ => rfl),
      buildRoot_eq host (Plan.added old new)]
  have hstays : ∀ m : Mount, Mounted.stays old new m.mounted = Plan.keeps old new m := fun _ => rfl
  have hrest : (MountTree.detachEach ((Plan.dropped old new).map Mount.dst) (buildRoot host old.mounts)).top q =
      MountTree.top ((buildRoot host old.mounts).filter (Mounted.stays old new)) q := by
    apply MountTree.top_detachEach
    · intro p hp u hu hkept
      obtain ⟨m, hm, rfl⟩ := List.mem_map.mp hp
      obtain ⟨m', _, _, rfl⟩ := mem_buildRoot.mp hu
      exact hapart.not_prefix (Or.inl hm) hkept
    · -- The paths are those of the mounts that go, the newest first, and of some that were never there.
      rw [buildRoot_eq, Plan.dropped_eq, List.filter_reverse, List.filter_map, List.map_reverse, List.map_map,
        List.filter_reverse, List.map_reverse]
      apply List.Sublist.reverse
      apply List.Sublist.map
      rw [List.filter_filter]
      exact List.monotone_filter_right _ fun m hm => (Bool.and_eq_true_iff.mp hm).1
  rw [htree, MountTree.top_append, MountTree.top_append, hrest, filter_buildRoot host old.mounts hstays]

/-- A reload that needs a restart changes no mount. One that does not shows at every path what a sandbox
shows that is started with the new config, exactly when in the latter no mount that the reload attaches is
covered by one that stays. -/
theorem reload_fresh_iff {lossy : String → String} {old new : Plan} {host : Path → Bool} {s : Sup}
    (hapart : Plan.Apart old new)
    (hkept : ∀ p, (buildRoot host (old.mounts.filter (Plan.keeps old new))).top p =
      (buildRoot host (new.mounts.filter (Plan.keeps old new))).top p)
    (h : (Sup.start old host).apply lossy new {} = some s) :
    ((old.diff new).restart ≠ [] → s.tree = (Sup.start old host).tree) ∧
      ((old.diff new).restart = [] →
        ((∀ p, s.tree.top p = (Sup.start new host).tree.top p) ↔
          ∀ m ∈ Plan.added old new, Mount.present host m = true →
            ∃ m' ∈ Plan.added old new, (Sup.start new host).tree.top m.dst = some m'.mounted)) := by
  constructor
  -- A restart touches nothing.
  · intro hrestart
    rw [Sup.apply_restart h hrestart]
  -- Else some mounts stay, and the others are exchanged.
  intro hrestart
  have hstays : ∀ m : Mount, Mounted.stays old new m.mounted = Plan.keeps old new m := fun _ => rfl
  have hgoes : ∀ m : Mount, (!Mounted.stays old new m.mounted) = !Plan.keeps old new m := fun _ => rfl
  have hsame : ∀ p, s.tree.top p =
      MountTree.top ((buildRoot host new.mounts).filter (fun t => !Mounted.stays old new t) ++
        (buildRoot host new.mounts).filter (Mounted.stays old new)) p := by
    intro p
    rw [Sup.tree_reload hapart hrestart h, MountTree.top_append, MountTree.top_append, hkept,
      filter_buildRoot host new.mounts hstays, filter_buildRoot host new.mounts hgoes, Plan.added_eq]
  have hiff := MountTree.top_exchange_iff (Mounted.stays old new) (T := buildRoot host new.mounts) (by
    intro a ha hcomes u hu hkept
    obtain ⟨m, hm, _, rfl⟩ := mem_buildRoot.mp ha
    obtain ⟨m', hm', _, rfl⟩ := mem_buildRoot.mp hu
    exact hapart.not_prefix (Or.inr (Plan.mem_added.mpr ⟨hm, hcomes⟩)) hkept)
  simp only [hsame]
  refine hiff.trans ?_
  constructor
  · intro hseen m hm hpresent
    obtain ⟨hnew, hcomes⟩ := Plan.mem_added.mp hm
    obtain ⟨b, hb, hbcomes⟩ := hseen m.mounted (mem_buildRoot.mpr ⟨m, hnew, hpresent, rfl⟩) hcomes
    obtain ⟨m', hm', _, rfl⟩ := mem_buildRoot.mp (MountTree.mem_of_top hb).1
    exact ⟨m', Plan.mem_added.mpr ⟨hm', hbcomes⟩, hb⟩
  · intro hseen a ha hcomes
    obtain ⟨m, hnew, hpresent, rfl⟩ := mem_buildRoot.mp ha
    obtain ⟨m', hm', htop⟩ := hseen m (Plan.mem_added.mpr ⟨hnew, hcomes⟩) hpresent
    exact ⟨m'.mounted, htop, (Plan.mem_added.mp hm').2⟩

/-- A plan with a share at `/run`, and with the audio sockets or not. -/
def runShared (devices : List DeviceClass) : Plan :=
  match Plan.build (.instance_ "demo" "default")
      { devices := devices, mount := [("run", ⟨some ["srv", "run"], ["run"], .readOnly, false⟩)] } plainHost with
  | .ok plan => plan
  | .error _ => networkPlan .host

/-- The audio sockets are covered by the share in a fresh start, but not after a reload. -/
theorem reload_fresh_iff_audio : ∃ s, (Sup.start (runShared []) fun _ => true).apply id (runShared [.audio]) {} = some s ∧
    ¬∀ p, s.tree.top p = (Sup.start (runShared [.audio]) fun _ => true).tree.top p := by
  have hsome : ((Sup.start (runShared []) fun _ => true).apply id (runShared [.audio]) {}).isSome := by
    decide
  obtain ⟨s, hs⟩ := Option.isSome_iff_exists.mp hsome
  refine ⟨s, hs, fun hsame => ?_⟩
  have hkept : (runShared []).mounts.filter (Plan.keeps (runShared []) (runShared [.audio])) =
      (runShared [.audio]).mounts.filter (Plan.keeps (runShared []) (runShared [.audio])) := by
    decide
  have hiff := (reload_fresh_iff (by decide) (fun p => by rw [hkept]) hs).2 (by decide +kernel)
  obtain ⟨m, hm, htop⟩ := hiff.mp hsame
    (.bind ["run", "user", "1000", "pipewire-0"] ["run", "user", "1000", "pipewire-0"] true true) (by decide) rfl
  revert m
  decide

end Psbox.Sandbox
