import Psbox.Sandbox.Records
import Psbox.Sandbox.Refresh

/-!
# What is Mounted

The supervisor has its plan and its records of live mounts, and reads neither back from the kernel. Here
runs of all its requests are followed, reloads and refreshes among them, in which no mount is ever on top of
another one. Then what is mounted is what the plan asks for and what is recorded, and nothing else
(`mounted_exactly`): what a reload drops is gone, what it keeps is there once, and the live mounts that had
to make way are back.

A refresh keeps to this when nothing is mounted beneath the overlay that comes before it in the plan
(`refresh_keeps_iff`). After a start there is nothing of the kind, but a reload attaches it on top.
-/

namespace Psbox.Sandbox

open Psbox.Foundations

/-! ## Section 1: Plans and Records in the Tree -/

/-- A record as it is written down once more. -/
def LiveMount.again (lossy : String → String) (lm : LiveMount) : LiveMount :=
  { host := lm.host.map lossy, place := lm.place.map lossy, mode := lm.mode }

/-- No two mounts of the plan have the same place. -/
def Plan.Distinct (plan : Plan) : Prop :=
  (plan.mounts.map Mount.dst).Nodup

instance (plan : Plan) : Decidable plan.Distinct :=
  inferInstanceAs (Decidable (List.Nodup _))

theorem Plan.Distinct.eq {plan : Plan} (h : plan.Distinct) {m m' : Mount} (hm : m ∈ plan.mounts)
    (hm' : m' ∈ plan.mounts) (hdst : m.dst = m'.dst) : m = m' :=
  List.inj_on_of_nodup_map h hm hm' hdst

/-- What is there stays there when more appears on the host. -/
theorem Mount.present_mono {host host' : Path → Bool} (h : ∀ p, host p = true → host' p = true) {m : Mount}
    (hm : Mount.present host m = true) : Mount.present host' m = true := by
  cases m with
  | bind src _ _ optional => cases optional <;> simp_all [Mount.present]
  | overlay lower _ optional => cases optional <;> simp_all [Mount.present]
  | symlink _ _ => cases hm
  | dir _ => cases hm
  | tmpfs _ _ => rfl
  | proc _ => rfl
  | dev _ => rfl
  | file _ _ => rfl

/-! ## Section 2: The Invariant -/

namespace Sup

/-- What is mounted is what the plan asks for and what is recorded. Of the plan's mounts there are those
whose source was there from the beginning, and none whose source is not there. -/
structure Exact (lossy : String → String) (host : Path → Bool) (s : Sup) : Prop where
  distinct : s.plan.Distinct
  grown : ∀ p, host p = true → s.host p = true
  known : ∀ t ∈ s.tree, (∃ m ∈ s.plan.mounts, Mount.present s.host m = true ∧ m.mounted = t) ∨
    ∃ lm ∈ s.mounts, lm.mounted = t
  planned : ∀ m ∈ s.plan.mounts, Mount.present host m = true → m.mounted ∈ s.tree
  live : ∀ lm ∈ s.mounts, lm.mounted ∈ s.tree
  /-- Records are the same when they are written down again. -/
  again : ∀ lm ∈ s.mounts, lm.again lossy = lm
  places : (s.mounts.map fun lm => lm.place.path).Nodup

/-- A request, or one round of a refresh, for the mount of the plan with that number. -/
inductive Request where
  | act (a : Action)
  | round (overlaps linked : Path → Bool) (faults : Nat → RefreshFaults) (i : Nat)

def serve (lossy : String → String) (s : Sup) : Request → Sup
  | .act a => s.step lossy a
  | .round overlaps linked faults i => (refreshAt overlaps linked faults (s, false) i).1

/-- There is something beneath an overlay that comes before it in the plan. -/
def Undercut (s : Sup) (i : Nat) (m : Mount) : Prop :=
  ∃ o ∈ s.plan.mounts.take i, m.dst <+: o.dst ∧ o.mounted ∈ s.tree

instance (s : Sup) (i : Nat) (m : Mount) : Decidable (s.Undercut i m) :=
  inferInstanceAs (Decidable (∃ o ∈ s.plan.mounts.take i, m.dst <+: o.dst ∧ o.mounted ∈ s.tree))

/-- What a request has to be for the mounts to stay in order. Names are those that can be written down,
nothing is mounted beneath what is taken away, and reloads get to where they want: the new plan has one
mount for a place, nothing is left unapplied, and no live mount is lost. -/
def Settles (lossy : String → String) (s : Sup) : Action → Prop
  | .appear _ => True
  | .mount src dst _ _ => Readable lossy src ∧ Readable lossy dst
  | .umount dst _ => ∀ t ∈ s.tree, dst.path <+: t.place → t.place = dst.path
  | .expose h _ _ _ => ∀ file ∈ fileName h,
      Readable lossy h ∧ Readable lossy (s.plan.runtimeDir ++ ["doc", toString (s.docs + 1), file])
  | .reload new faults => new.Distinct ∧ (s.step lossy (.reload new faults)).unapplied = s.unapplied ∧
      (s.step lossy (.reload new faults)).mounts.length = s.mounts.length

instance (lossy : String → String) (s : Sup) (a : Action) : Decidable (s.Settles lossy a) :=
  match a with
  | .appear _ => isTrue trivial
  | .mount src dst _ _ =>
      inferInstanceAs (Decidable (Spelling.path (src.map lossy) = src.path ∧ Spelling.path (dst.map lossy) = dst.path))
  | .umount dst _ => inferInstanceAs (Decidable (∀ t ∈ s.tree, dst.path <+: t.place → t.place = dst.path))
  | .expose h _ _ _ => inferInstanceAs (Decidable (∀ file ∈ fileName h, Spelling.path (h.map lossy) = h.path ∧
      Spelling.path ((s.plan.runtimeDir ++ ["doc", toString (s.docs + 1), file]).map lossy) =
        Spelling.path (s.plan.runtimeDir ++ ["doc", toString (s.docs + 1), file])))
  | .reload new faults => inferInstanceAs (Decidable (new.Distinct ∧
      (s.step lossy (.reload new faults)).unapplied = s.unapplied ∧
        (s.step lossy (.reload new faults)).mounts.length = s.mounts.length))

/-- In a refresh nothing is mounted beneath the overlay that comes before it in the plan, and no file of the
plan is a symlink. -/
def Renewable (s : Sup) (overlaps linked : Path → Bool) (i : Nat) : Prop :=
  (∀ m ∈ s.plan.mounts, linked m.dst = false) ∧
    match s.plan.mounts[i]? with
    | some (.overlay lower dst optional) => overlaps lower = true → ¬s.Undercut i (.overlay lower dst optional)
    | _ => True

instance (s : Sup) (overlaps linked : Path → Bool) (i : Nat) : Decidable (s.Renewable overlaps linked i) := by
  unfold Renewable
  split <;> infer_instance

/-- A request after which nothing is on top of anything. -/
def Clear (lossy : String → String) (s : Sup) (r : Request) : Prop :=
  (match r with
    | .act a => s.Settles lossy a
    | .round overlaps linked _ i => s.Renewable overlaps linked i) ∧
    MountTree.Uncovered (s.serve lossy r).tree

instance (lossy : String → String) (s : Sup) (r : Request) : Decidable (s.Clear lossy r) := by
  unfold Clear
  split <;> infer_instance

variable {lossy : String → String} {host : Path → Bool} {s s' : Sup}

/-- A change that is none of the mounts' business. -/
theorem Exact.of_same (h : Exact lossy host s) (hplan : s'.plan = s.plan) (htree : s'.tree = s.tree)
    (hmounts : s'.mounts = s.mounts) (hhost : ∀ p, s.host p = true → s'.host p = true) : Exact lossy host s' where
  distinct := hplan ▸ h.distinct
  grown p hp := hhost p (h.grown p hp)
  known t ht := by
    rw [htree] at ht
    rw [hplan, hmounts]
    refine (h.known t ht).imp_left ?_
    rintro ⟨m, hm, hpresent, hmounted⟩
    exact ⟨m, hm, Mount.present_mono hhost hpresent, hmounted⟩
  planned := by
    rw [hplan, htree]
    exact h.planned
  live := by
    rw [hmounts, htree]
    exact h.live
  again := hmounts ▸ h.again
  places := hmounts ▸ h.places

private theorem exact_start {plan : Plan} (hplan : plan.Distinct) : Exact lossy host (Sup.start plan host) where
  distinct := hplan
  grown _ hp := hp
  known t ht := Or.inl (mem_buildRoot.mp ht)
  planned m hm hpresent := mem_buildRoot.mpr ⟨m, hm, hpresent, rfl⟩
  live := by simp [Sup.start]
  again := by simp [Sup.start]
  places := by simp [Sup.start]

/-! ## Section 3: Mounting and Umounting -/

/-- A live mount changes nothing else. -/
theorem mount_same {src dst : Spelling} {mode : MountMode} {ok : Bool}
    (h : s.mount lossy src dst mode ok = some s') : s'.plan = s.plan ∧ s'.host = s.host := by
  unfold mount at h
  split at h
  · cases h
  split at h
  · cases h
  split at h
  · cases h
  split at h
  · obtain rfl := Option.some.inj h
    exact ⟨rfl, rfl⟩
  · cases h

/-- A record of readable names is of what was mounted. -/
theorem mounted_record {src dst : Spelling} (mode : MountMode) (hread : Readable lossy src ∧ Readable lossy dst) :
    LiveMount.mounted { host := src.map lossy, place := dst.map lossy, mode := mode } =
      ⟨dst.path, .live src.path mode⟩ := by
  have hsrc : Spelling.path (src.map lossy) = src.path := hread.1
  have hdst : Spelling.path (dst.map lossy) = dst.path := hread.2
  simp only [LiveMount.mounted, hsrc, hdst]

/-- A live mount on top of nothing. -/
theorem Exact.push (h : Exact lossy host s) (hlossy : ∀ name, lossy (lossy name) = lossy name) {src dst : Spelling}
    {mode : MountMode} (hpushed : Pushed lossy s s' src dst mode) (hplan : s'.plan = s.plan)
    (hhost : ∀ p, s.host p = true → s'.host p = true)
    (hread : Readable lossy src ∧ Readable lossy dst) (huncovered : MountTree.Uncovered s'.tree) :
    Exact lossy host s' := by
  have hrecord := mounted_record mode hread
  rw [hpushed.tree] at huncovered
  obtain ⟨habove, _⟩ := MountTree.uncovered_attach.mp huncovered
  refine {
    distinct := hplan ▸ h.distinct, grown := fun p hp => hhost p (h.grown p hp), known := ?known,
    planned := ?planned, live := ?live, again := ?again, places := ?places }
  case known =>
    intro t ht
    rw [hpushed.tree] at ht
    rw [hplan, hpushed.mounts]
    rcases List.mem_cons.mp ht with rfl | ht
    · exact Or.inr ⟨_, List.mem_append_right _ List.mem_cons_self, hrecord⟩
    rcases h.known t ht with ⟨m, hm, hpresent, hmounted⟩ | ⟨lm, hlm, hmounted⟩
    · exact Or.inl ⟨m, hm, Mount.present_mono hhost hpresent, hmounted⟩
    · exact Or.inr ⟨lm, List.mem_append_left _ hlm, hmounted⟩
  case planned =>
    rw [hplan, hpushed.tree]
    exact fun m hm hpresent => List.mem_cons_of_mem _ (h.planned m hm hpresent)
  case live =>
    rw [hpushed.mounts, hpushed.tree]
    intro lm hlm
    rcases List.mem_append.mp hlm with hlm | hlm
    · exact List.mem_cons_of_mem _ (h.live lm hlm)
    · obtain rfl := List.mem_singleton.mp hlm
      rw [hrecord]
      exact List.mem_cons_self
  case again =>
    rw [hpushed.mounts]
    intro lm hlm
    rcases List.mem_append.mp hlm with hlm | hlm
    · exact h.again lm hlm
    · obtain rfl := List.mem_singleton.mp hlm
      simp [LiveMount.again, hlossy]
  case places =>
    rw [hpushed.mounts, List.map_append, List.map_singleton]
    apply List.Nodup.append h.places (List.nodup_singleton _)
    intro p hp hsame
    obtain ⟨lm, hlm, rfl⟩ := List.mem_map.mp hp
    -- What was mounted there before is not covered.
    apply habove lm.mounted (h.live lm hlm)
    have hdst : Spelling.path (dst.map lossy) = dst.path := hread.2
    have hplace : lm.mounted.place = dst.path := (List.mem_singleton.mp hsame).trans hdst
    exact hplace ▸ List.prefix_refl _

theorem umount_detach {dst : Spelling} {ok : Bool} (h : s.umount dst ok = some s') :
    s.tree.detach dst.path = some s'.tree ∧ s'.plan = s.plan ∧ s'.host = s.host := by
  unfold umount at h
  split at h
  · cases h
  split at h
  · obtain ⟨T, hT, rfl⟩ := Option.map_eq_some_iff.mp h
    exact ⟨hT, rfl, rfl⟩
  · cases h

/-- A live mount with nothing beneath it is taken away. -/
theorem Exact.pop (h : Exact lossy host s) {dst : Spelling} {ok : Bool} (hs : s.umount dst ok = some s')
    (hbeneath : ∀ t ∈ s.tree, dst.path <+: t.place → t.place = dst.path) (huncovered : MountTree.Uncovered s.tree) :
    Exact lossy host s' := by
  obtain ⟨hdetach, hplan, hhost⟩ := umount_detach hs
  obtain ⟨hpopped⟩ := umount_popped hs
  have hmem : ∀ lm, lm ∈ s.mounts ↔ lm = hpopped.record ∨ lm ∈ s'.mounts := by
    intro lm
    rw [hpopped.mounts, hpopped.mounts', List.mem_append, List.mem_cons, List.mem_append]
    exact or_left_comm
  have hrecord : hpopped.record.mounted ∈ s.tree := h.live _ ((hmem _).mpr (Or.inl rfl))
  -- What is taken away is the one that the record is for.
  have htree : ∀ t, t ∈ s'.tree ↔ t ∈ s.tree ∧ t ≠ hpopped.record.mounted := by
    have hplace : hpopped.record.mounted.place = dst.path := by
      rw [LiveMount.mounted, hpopped.place, path_path]
    intro t
    apply huncovered.mem_detach hrecord
    · rw [hplace]
      exact hdetach
    · rw [hplace]
      exact hbeneath
  have hnodup := h.places
  rw [hpopped.mounts, List.map_append, List.map_cons] at hnodup
  obtain ⟨hother, hrest⟩ := List.nodup_cons.mp (List.nodup_middle.mp hnodup)
  rw [← List.map_append, ← hpopped.mounts'] at hother hrest
  refine {
    distinct := hplan ▸ h.distinct, grown := hhost ▸ h.grown, known := ?known, planned := ?planned,
    live := ?live, again := ?again, places := hrest }
  case known =>
    intro t ht
    obtain ⟨ht, hne⟩ := (htree t).mp ht
    rw [hplan, hhost]
    refine (h.known t ht).imp_right ?_
    rintro ⟨lm, hlm, rfl⟩
    refine ⟨lm, ((hmem lm).mp hlm).resolve_left ?_, rfl⟩
    intro heq
    exact hne (congrArg LiveMount.mounted heq)
  case planned =>
    rw [hplan]
    intro m hm hpresent
    refine (htree _).mpr ⟨h.planned m hm hpresent, ?_⟩
    simp [Mount.mounted, LiveMount.mounted]
  case live =>
    intro lm hlm
    refine (htree _).mpr ⟨h.live lm ((hmem lm).mpr (Or.inr hlm)), ?_⟩
    -- Another record for the same place there is not.
    intro hsame
    exact hother (List.mem_map.mpr ⟨lm, hlm, congrArg Mounted.place hsame⟩)
  case again =>
    exact fun lm hlm => h.again lm ((hmem lm).mpr (Or.inr hlm))

/-! ## Section 4: Reloads -/

/-- What can be mounted again is mounted and recorded once more, in its order, and nothing else happens. -/
theorem remountAll_back (lms : List LiveMount) (hagain : ∀ lm ∈ lms, lm.again lossy = lm) (fault : Nat → Bool) (s : Sup) :
    ∃ back : List LiveMount, back.Sublist lms ∧ (remountAll lossy lms fault s).plan = s.plan ∧
      (remountAll lossy lms fault s).host = s.host ∧
      (remountAll lossy lms fault s).mounts = s.mounts ++ back ∧
      (remountAll lossy lms fault s).tree = (back.map LiveMount.mounted).reverse ++ s.tree := by
  induction lms generalizing fault s with
  | nil => exact ⟨[], List.Sublist.refl _, rfl, rfl, by simp [remountAll], rfl⟩
  | cons lm lms ih =>
      obtain ⟨hself, hrest⟩ := List.forall_mem_cons.mp hagain
      rw [remountAll]
      cases hmount : s.mount lossy lm.host lm.place lm.mode !(fault 0) with
      | none =>
          obtain ⟨back, hsub, hsame⟩ := ih hrest (fun i => fault (i + 1)) s
          exact ⟨back, hsub.cons lm, hsame⟩
      | some t =>
          obtain ⟨back, hsub, hplan, hhost, hmounts, htree⟩ := ih hrest (fun i => fault (i + 1)) t
          obtain ⟨hplan', hhost'⟩ := mount_same hmount
          have hpushed := mount_pushed hmount
          have hrecord : t.mounts = s.mounts ++ [lm] := by
            rw [hpushed.mounts]
            exact congrArg (s.mounts ++ [·]) hself
          rw [Option.getD_some]
          refine ⟨lm :: back, hsub.cons_cons lm, hplan.trans hplan', hhost.trans hhost', ?_, ?_⟩
          · rw [hmounts, hrecord, List.append_assoc]
            rfl
          · rw [htree, hpushed.tree]
            simp [LiveMount.mounted, MountTree.attach]

/-- What a reload makes of the mounts when nothing of it fails. Of the live mounts that had to make way,
those in `back` are mounted again. -/
structure Exchanged (s s' : Sup) (new : Plan) (back : List LiveMount) : Prop where
  plan : s'.plan = new
  host : s'.host = s.host
  among : back.Sublist (s.mounts.filter (Change.touches (s.plan.diff new)))
  mounts : s'.mounts = s.mounts.filter (fun lm => !Change.touches (s.plan.diff new) lm) ++ back
  tree : s'.tree = (back.map LiveMount.mounted).reverse ++
    (((Plan.added s.plan new).filter (Mount.present s.host)).map Mount.mounted).reverse ++
      MountTree.detachEach ((Plan.dropped s.plan new).map Mount.dst) s.tree

theorem exchanged_apply {new : Plan} {faults : Faults} (h : s.apply lossy new faults = some s')
    (hrestart : (s.plan.diff new).restart = []) (hunapplied : s'.unapplied = s.unapplied)
    (hagain : ∀ lm ∈ s.mounts, lm.again lossy = lm) : ∃ back, Exchanged s s' new back := by
  have hs := apply_live h hrestart
  dsimp only at hs
  -- Nothing failed that would have been recorded.
  have hfailed := congrArg Sup.unapplied hs
  rw [hunapplied] at hfailed
  have hnone := List.map_eq_nil_iff.mp (List.self_eq_append_right.mp hfailed)
  obtain ⟨hdetached, hplaced⟩ := List.append_eq_nil_iff.mp hnone
  obtain ⟨back, hsub, hplan, hhost, hmounts, htree⟩ := remountAll_back
    (s.mounts.filter (Change.touches (s.plan.diff new)))
    (fun lm hlm => hagain lm (List.mem_of_mem_filter hlm)) faults.remount
    { s with
      plan := new
      tree := (placeAll ((Plan.added s.plan new).filter (Mount.present s.host)) faults.place
        (detachAll (Plan.dropped s.plan new) faults.detach s.tree).1).1
      mounts := s.mounts.filter fun lm => !Change.touches (s.plan.diff new) lm }
  have htree' := (congrArg Sup.tree hs).trans htree
  rw [placeAll_tree (Or.inr hplaced), detachAll_tree (Or.inr hdetached), ← List.append_assoc] at htree'
  exact ⟨back, (congrArg Sup.plan hs).trans hplan, (congrArg Sup.host hs).trans hhost, hsub,
    (congrArg Sup.mounts hs).trans hmounts, htree'⟩

/-- When as many are recorded as there were, all are mounted again. -/
theorem Exchanged.all_back {new : Plan} {back : List LiveMount} (h : Exchanged s s' new back)
    (hlength : s'.mounts.length = s.mounts.length) : back = s.mounts.filter (Change.touches (s.plan.diff new)) := by
  have hparts : (s.mounts.filter fun lm => !Change.touches (s.plan.diff new) lm).length +
      (s.mounts.filter (Change.touches (s.plan.diff new))).length = s.mounts.length := by
    rw [Nat.add_comm]
    exact (List.length_eq_length_filter_add _).symm
  rw [h.mounts, List.length_append] at hlength
  exact h.among.eq_of_length (by omega)

/-- A reload keeps the mounts in order. -/
theorem Exact.exchange (h : Exact lossy host s) {new : Plan}
    (hex : Exchanged s s' new (s.mounts.filter (Change.touches (s.plan.diff new))))
    (hrestart : (s.plan.diff new).restart = []) (hnew : new.Distinct) (hs : MountTree.Uncovered s.tree) :
    Exact lossy host s' := by
  obtain ⟨hdetach, hattach⟩ := Plan.diff_of_restart hrestart
  have hmem : ∀ lm, lm ∈ s'.mounts ↔ lm ∈ s.mounts := by
    intro lm
    rw [hex.mounts, List.mem_append, List.mem_filter, List.mem_filter]
    cases Change.touches (s.plan.diff new) lm <;> simp
  have htree : ∀ t, t ∈ s'.tree ↔
      (∃ lm ∈ s.mounts, Change.touches (s.plan.diff new) lm = true ∧ lm.mounted = t) ∨
        (∃ m ∈ Plan.added s.plan new, Mount.present s.host m = true ∧ m.mounted = t) ∨
          t ∈ MountTree.detachEach ((Plan.dropped s.plan new).map Mount.dst) s.tree := by
    intro t
    simp [hex.tree, and_assoc]
  -- What the exchange leaves of the tree is what stays.
  have hleft : ∀ t, t ∈ MountTree.detachEach ((Plan.dropped s.plan new).map Mount.dst) s.tree ↔
      t ∈ s.tree ∧ ∀ m ∈ Plan.dropped s.plan new, (∃ u ∈ s.tree, u.place = m.dst) → ¬m.dst <+: t.place := by
    intro t
    rw [hs.detachEach, List.mem_filter, decide_eq_true_iff, List.forall_mem_map]
  have hstays : ∀ m ∈ s.plan.mounts, Plan.keeps s.plan new m = true → m.mounted ∈ s.tree →
      m.mounted ∈ MountTree.detachEach ((Plan.dropped s.plan new).map Mount.dst) s.tree := by
    intro m hm hkeeps hmounted
    refine (hleft _).mpr ⟨hmounted, fun m' hm' _ hprefixed => ?_⟩
    obtain ⟨hm'old, hm'goes⟩ := Plan.mem_dropped.mp hm'
    have hdst := Plan.place_of_keeps (Or.inl hm') hkeeps hprefixed
    rw [h.distinct.eq hm'old hm hdst, hkeeps] at hm'goes
    cases hm'goes
  refine {
    distinct := hex.plan ▸ hnew, grown := hex.host ▸ h.grown, known := ?known, planned := ?planned,
    live := ?live, again := ?again, places := ?places }
  case known =>
    intro t ht
    rw [hex.plan, hex.host]
    rcases (htree t).mp ht with ⟨lm, hlm, _, rfl⟩ | ⟨m, hm, hpresent, rfl⟩ | hleftover
    · exact Or.inr ⟨lm, (hmem lm).mpr hlm, rfl⟩
    · exact Or.inl ⟨m, (Plan.mem_added.mp hm).1, hpresent, rfl⟩
    obtain ⟨hold, hplaces⟩ := (hleft t).mp hleftover
    rcases h.known t hold with ⟨m, hm, hpresent, rfl⟩ | ⟨lm, hlm, rfl⟩
    · -- A mount of the old plan that is left is one that stays.
      cases hkeeps : Plan.keeps s.plan new m with
      | true => exact Or.inl ⟨m, (Plan.keeps_iff.mp hkeeps).2.1, hpresent, rfl⟩
      | false =>
          have hdropped : m ∈ Plan.dropped s.plan new := Plan.mem_dropped.mpr ⟨hm, hkeeps⟩
          exact absurd (List.prefix_refl _) (hplaces m hdropped ⟨m.mounted, hold, rfl⟩)
    · exact Or.inr ⟨lm, (hmem lm).mpr hlm, rfl⟩
  case planned =>
    rw [hex.plan]
    intro m hm hpresent
    cases hkeeps : Plan.keeps s.plan new m with
    | true =>
        have hold := (Plan.keeps_iff.mp hkeeps).1
        exact (htree _).mpr (Or.inr (Or.inr (hstays m hold hkeeps (h.planned m hold hpresent))))
    | false =>
        have hadded : m ∈ Plan.added s.plan new := Plan.mem_added.mpr ⟨hm, hkeeps⟩
        exact (htree _).mpr (Or.inr (Or.inl ⟨m, hadded, Mount.present_mono h.grown hpresent, rfl⟩))
  case live =>
    intro lm hlm
    rw [hmem] at hlm
    cases htouched : Change.touches (s.plan.diff new) lm with
    | true => exact (htree _).mpr (Or.inl ⟨lm, hlm, htouched, rfl⟩)
    | false =>
        refine (htree _).mpr (Or.inr (Or.inr ((hleft _).mpr ⟨h.live lm hlm, fun m hm _ hprefixed => ?_⟩)))
        have hplaces := List.any_eq_false.mp htouched m
        rw [hdetach, hattach] at hplaces
        exact hplaces (List.mem_append_left _ hm) (decide_eq_true hprefixed)
  case again =>
    exact fun lm hlm => h.again lm ((hmem lm).mp hlm)
  case places =>
    have hperm : s'.mounts.Perm s.mounts := by
      rw [hex.mounts]
      refine List.perm_append_comm.trans ?_
      exact List.filter_append_perm _ _
    exact (hperm.map _).nodup_iff.mpr h.places

/-! ## Section 5: Refreshes -/

/-- Of what was mounted at an overlay or beneath, all comes back that is not before it in the plan. -/
theorem Exact.mem_fresh_iff (h : Exact lossy host s) {i : Nat} {m : Mount} {linked : Path → Bool} {faults : RefreshFaults}
    {fresh : Tree} (hm : s.plan.mounts[i]? = some m)
    (hassembled : Assembled s m (s.plan.mounts.take i) (s.plan.mounts.drop (i + 1)) linked faults fresh)
    (hlinked : ∀ m ∈ s.plan.mounts, linked m.dst = false) {t : Mounted String Source} (ht : t ∈ s.tree)
    (hbeneath : m.dst <+: t.place) : t ∈ fresh ↔ ∀ o ∈ s.plan.mounts.take i, o.mounted ≠ t := by
  have hlive : ∀ (lm : LiveMount) (o : Mount), lm.mounted ≠ o.mounted := by
    intro lm o
    simp [LiveMount.mounted, Mount.mounted]
  obtain ⟨hlt, hget⟩ := List.getElem?_eq_some_iff.mp hm
  have hsplit : s.plan.mounts = s.plan.mounts.take i ++ m :: s.plan.mounts.drop (i + 1) := by
    rw [← hget, List.getElem_cons_drop, List.take_append_drop]
  obtain ⟨inner, _, halone, _, hnone, hrebuild, rfl⟩ := hassembled
  have hrebuilt : ∀ o, o ∈ inner ↔ _ := fun o =>
    mem_rebuildWithin hrebuild (fun o ho => hlinked o (List.mem_of_mem_drop ho)) (m := o)
  have hfresh : t ∈ freshTree m inner (s.mounts.filter fun lm => lm.place.path ≠ m.dst ∧ m.dst <+: lm.place.path) ↔
      (∃ lm ∈ s.mounts, (lm.place.path ≠ m.dst ∧ m.dst <+: lm.place.path) ∧ lm.mounted = t) ∨
        (∃ o ∈ inner, o.mounted = t) ∨ t = m.mounted := by
    simp [freshTree, and_assoc]
  rw [hfresh]
  -- Before the overlay there is neither itself nor what comes after it.
  have hnodup : (s.plan.mounts.take i ++ m :: s.plan.mounts.drop (i + 1)).Nodup := hsplit ▸ h.distinct.of_map
  have hbefore := (List.nodup_append.mp hnodup).2.2
  constructor
  · rintro (⟨lm, _, _, rfl⟩ | ⟨o', ho', rfl⟩ | rfl) o ho heq
    · exact hlive lm o heq.symm
    · obtain rfl := Mount.mounted_injective heq
      exact hbefore o ho o (List.mem_cons_of_mem m ((hrebuilt o).mp ho').1) rfl
    · obtain rfl := Mount.mounted_injective heq
      exact hbefore o ho o List.mem_cons_self rfl
  · intro hnot
    rcases h.known t ht with ⟨o, ho, hpresent, rfl⟩ | ⟨lm, hlm, rfl⟩
    · rw [hsplit] at ho
      rcases List.mem_append.mp ho with ho | ho
      · exact absurd rfl (hnot o ho)
      rcases List.mem_cons.mp ho with rfl | ho
      · exact Or.inr (Or.inr rfl)
      · have hne : o.dst ≠ m.dst := halone o (List.mem_append_right _ ho)
        exact Or.inr (Or.inl ⟨o, (hrebuilt o).mpr ⟨ho, hne, hbeneath, hpresent⟩, rfl⟩)
    · left
      refine ⟨lm, hlm, ⟨fun heq => ?_, hbeneath⟩, rfl⟩
      exact hnone lm hlm (heq ▸ List.prefix_refl _)

/-- What is swapped in is asked for by the plan, or recorded. -/
theorem Assembled.known {m : Mount} {earlier later : List Mount} {linked : Path → Bool} {faults : RefreshFaults}
    {fresh : Tree} (h : Assembled s m earlier later linked faults fresh)
    (hlinked : ∀ o ∈ later, linked o.dst = false) : ∀ t ∈ fresh,
      (∃ o ∈ m :: later, Mount.present s.host o = true ∧ o.mounted = t) ∨ ∃ lm ∈ s.mounts, lm.mounted = t := by
  intro t ht
  rw [h.tree, freshTree, List.mem_append, List.mem_append, List.mem_reverse, List.mem_reverse] at ht
  rcases ht with hlive | hinner | hself
  · obtain ⟨lm, hlm, rfl⟩ := List.mem_map.mp hlive
    exact Or.inr ⟨lm, List.mem_of_mem_filter hlm, rfl⟩
  · obtain ⟨o, ho, rfl⟩ := List.mem_map.mp hinner
    obtain ⟨hmem, _, _, hpresent⟩ := (mem_rebuildWithin h.rebuilt hlinked).mp ho
    exact Or.inl ⟨o, List.mem_cons_of_mem m hmem, hpresent, rfl⟩
  · obtain rfl := List.mem_singleton.mp hself
    exact Or.inl ⟨m, List.mem_cons_self, present_of_prepareMount h.prepared, rfl⟩

/-- An overlay with nothing beneath it that comes before it is refreshed, or that fails. -/
theorem Exact.renew (h : Exact lossy host s) (hs : MountTree.Uncovered s.tree) {i : Nat} {m : Mount}
    {linked : Path → Bool} {faults : RefreshFaults} {fresh : Tree} (hm : s.plan.mounts[i]? = some m)
    (hassembled : Assembled s m (s.plan.mounts.take i) (s.plan.mounts.drop (i + 1)) linked faults fresh)
    (hlinked : ∀ m ∈ s.plan.mounts, linked m.dst = false) (hundercut : ¬s.Undercut i m) :
    Exact lossy host { s with tree := (swapIn s.tree m.dst fresh faults).1 } := by
  have hkept : ∀ t ∈ s.tree, t ∈ (swapIn s.tree m.dst fresh faults).1 := by
    intro t ht
    refine mem_swapIn_of_mem hs ht fun hbeneath => ?_
    apply (h.mem_fresh_iff hm hassembled hlinked ht hbeneath).mpr
    rintro o ho rfl
    exact hundercut ⟨o, ho, hbeneath, ht⟩
  have hlater : ∀ o ∈ m :: s.plan.mounts.drop (i + 1), o ∈ s.plan.mounts := by
    intro o ho
    rcases List.mem_cons.mp ho with rfl | ho
    · exact List.mem_of_getElem? hm
    · exact List.mem_of_mem_drop ho
  refine ⟨h.distinct, h.grown, ?_, fun o ho hpresent => hkept _ (h.planned o ho hpresent),
    fun lm hlm => hkept _ (h.live lm hlm), h.again, h.places⟩
  intro t ht
  rcases mem_swapIn hs ht with hfresh | hold
  · have hknown := hassembled.known (fun o ho => hlinked o (List.mem_of_mem_drop ho)) t hfresh
    refine hknown.imp_left ?_
    rintro ⟨o, ho, hpresent⟩
    exact ⟨o, hlater o ho, hpresent⟩
  · exact h.known t hold

/-! ## Section 6: One Step -/

/-- A file dialog mounts a file, or nothing. -/
theorem expose_same_or_pushed (lossy : String → String) (s : Sup) (h : Spelling) (create made ok : Bool) :
    (s.expose lossy h create made ok).1.plan = s.plan ∧
      (∀ p, s.host p = true → (s.expose lossy h create made ok).1.host p = true) ∧
        (((s.expose lossy h create made ok).1.tree = s.tree ∧ (s.expose lossy h create made ok).1.mounts = s.mounts) ∨
          s.visibleAt h = none ∧ ∃ file ∈ fileName h, Pushed lossy s (s.expose lossy h create made ok).1 h
            (s.plan.runtimeDir ++ ["doc", toString (s.docs + 1), file]) .readWrite) := by
  obtain ⟨host, hhost, hgrown⟩ : ∃ host, (if create = true then { s with host := fun p => decide (p = h.path) || s.host p }
      else s) = { s with host := host } ∧ ∀ p, s.host p = true → host p = true := by
    split
    · exact ⟨_, rfl, fun p hp => by simp [hp]⟩
    · exact ⟨_, rfl, fun _ hp => hp⟩
  unfold expose
  split
  · exact ⟨rfl, fun _ hp => hp, Or.inl ⟨rfl, rfl⟩⟩
  rw [hhost]
  dsimp only
  split
  · exact ⟨rfl, hgrown, Or.inl ⟨rfl, rfl⟩⟩
  rename_i hunseen
  split
  · exact ⟨rfl, hgrown, Or.inl ⟨rfl, rfl⟩⟩
  · rename_i file hfile
    split
    · rename_i s' hmount
      obtain ⟨hplan, hsame⟩ := mount_same hmount
      have hpushed := mount_pushed hmount
      refine ⟨hplan, fun p hp => ?_, Or.inr ⟨hunseen, file, hfile, hpushed.tree, hpushed.mounts⟩⟩
      rw [hsame]
      exact hgrown p hp
    · exact ⟨rfl, hgrown, Or.inl ⟨rfl, rfl⟩⟩

theorem Exact.step (hlossy : ∀ name, lossy (lossy name) = lossy name) (h : Exact lossy host s)
    (hs : MountTree.Uncovered s.tree) {a : Action} (hsettles : s.Settles lossy a)
    (huncovered : MountTree.Uncovered (s.step lossy a).tree) : Exact lossy host (s.step lossy a) := by
  cases a with
  | appear p =>
      refine h.of_same rfl rfl rfl fun q hq => ?_
      simp [Sup.step, hq]
  | mount src dst mode ok =>
      change Exact lossy host ((s.mount lossy src dst mode ok).getD s)
      change MountTree.Uncovered ((s.mount lossy src dst mode ok).getD s).tree at huncovered
      cases hmount : s.mount lossy src dst mode ok with
      | none => exact h
      | some s' =>
          rw [hmount] at huncovered
          obtain ⟨hplan, hhost⟩ := mount_same hmount
          exact h.push hlossy (mount_pushed hmount) hplan (fun p hp => hhost ▸ hp) hsettles huncovered
  | umount dst ok =>
      change Exact lossy host ((s.umount dst ok).getD s)
      cases humount : s.umount dst ok with
      | none => exact h
      | some s' => exact h.pop humount hsettles hs
  | expose path create made ok =>
      obtain ⟨hplan, hgrown, hsame | hpushed⟩ := expose_same_or_pushed lossy s path create made ok
      · exact h.of_same hplan hsame.1 hsame.2 hgrown
      · obtain ⟨_, file, hfile, hpushed⟩ := hpushed
        exact h.push hlossy hpushed hplan hgrown (hsettles file hfile) huncovered
  | reload new faults =>
      obtain ⟨hnew, hunapplied, hlength⟩ := hsettles
      change Exact lossy host ((s.apply lossy new faults).getD s)
      change ((s.apply lossy new faults).getD s).unapplied = _ at hunapplied
      change ((s.apply lossy new faults).getD s).mounts.length = _ at hlength
      cases happly : s.apply lossy new faults with
      | none => exact h
      | some s' =>
          rw [happly, Option.getD_some] at hunapplied hlength
          rw [Option.getD_some]
          by_cases hrestart : (s.plan.diff new).restart = []
          · obtain ⟨back, hex⟩ := exchanged_apply happly hrestart hunapplied h.again
            obtain rfl := hex.all_back hlength
            exact h.exchange hex hrestart hnew hs
          · rw [apply_restart happly hrestart]
            exact h.of_same rfl rfl rfl fun _ hp => hp

/-- A round of a refresh keeps the mounts in order. -/
theorem Exact.round (h : Exact lossy host s) (hs : MountTree.Uncovered s.tree) {overlaps linked : Path → Bool}
    {faults : Nat → RefreshFaults} {i : Nat} (hrenewable : s.Renewable overlaps linked i) :
    Exact lossy host (refreshAt overlaps linked faults (s, false) i).1 := by
  obtain ⟨hlinked, hundercut⟩ := hrenewable
  unfold refreshAt
  dsimp only
  split
  · rename_i lower dst optional hmount
    rw [hmount] at hundercut
    split
    · rename_i hoverlaps
      unfold refreshOverlay
      split
      · exact h
      · exact h
      · rename_i fresh hfresh
        obtain ⟨hassembled⟩ := assembled hfresh
        exact h.renew hs hmount hassembled hlinked (hundercut hoverlaps)
    · exact h
  · exact h

theorem Exact.serve (hlossy : ∀ name, lossy (lossy name) = lossy name) (h : Exact lossy host s)
    (hs : MountTree.Uncovered s.tree) {r : Request} (hclear : s.Clear lossy r) : Exact lossy host (s.serve lossy r) := by
  cases r with
  | act a => exact h.step hlossy hs hclear.1 hclear.2
  | round overlaps linked faults i => exact h.round hs hclear.1

/-- In runs of requests after which nothing is on top of anything. -/
theorem exact_of_run (hlossy : ∀ name, lossy (lossy name) = lossy name) {plan : Plan} (hplan : plan.Distinct)
    (hroot : MountTree.Uncovered (Sup.start plan host).tree) {rs : List Request}
    (hclear : StepsMeet (fun s r => some (s.serve lossy r)) (Sup.Clear lossy) (Sup.start plan host) rs)
    (hrun : run (fun s r => some (s.serve lossy r)) (Sup.start plan host) rs = some s) :
    Exact lossy host s ∧ MountTree.Uncovered s.tree := by
  refine run_invariant_of_meets (I := fun s => Exact lossy host s ∧ MountTree.Uncovered s.tree) ?_
    ⟨exact_start hplan, hroot⟩ hclear hrun
  intro t r t' ht hmeets hstep
  obtain rfl := Option.some.inj hstep
  exact ⟨ht.1.serve hlossy ht.2 hmeets, hmeets.2⟩

end Sup

/-! ## Section 7: Runs -/

/-- In every run of requests and refreshes where nothing is ever mounted on top of something else, there is
mounted what the plan asks for and has a source, each live mount that is recorded, nothing else, and nothing
twice. So at a path the deepest of them is seen. Without live mounts, and with nothing new on the host, that
is what a sandbox shows that is started with the plan of the last reload. -/
theorem mounted_exactly {lossy : String → String} (hlossy : ∀ name, lossy (lossy name) = lossy name) {plan : Plan}
    {host : Path → Bool} (hplan : plan.Distinct) (hroot : MountTree.Uncovered (Sup.start plan host).tree)
    {rs : List Sup.Request} {s : Sup}
    (hclear : StepsMeet (fun s r => some (s.serve lossy r)) (Sup.Clear lossy) (Sup.start plan host) rs)
    (hrun : run (fun s r => some (s.serve lossy r)) (Sup.start plan host) rs = some s) :
    (∀ m ∈ s.plan.mounts, Mount.present host m = true → m.mounted ∈ s.tree) ∧
      (∀ lm ∈ s.mounts, lm.mounted ∈ s.tree) ∧
      (∀ t ∈ s.tree, (∃ m ∈ s.plan.mounts, Mount.present s.host m = true ∧ m.mounted = t) ∨
        ∃ lm ∈ s.mounts, lm.mounted = t) ∧
      s.tree.Nodup ∧
      (∀ p t, s.tree.top p = some t ↔
        t ∈ s.tree ∧ t.place <+: p ∧ ∀ u ∈ s.tree, u.place <+: p → u.place <+: t.place) ∧
      (s.mounts = [] → s.host = host → MountTree.Uncovered (Sup.start s.plan host).tree →
        ∀ p, s.tree.top p = (Sup.start s.plan host).tree.top p) := by
  obtain ⟨hexact, huncovered⟩ := Sup.exact_of_run hlossy hplan hroot hclear hrun
  refine ⟨hexact.planned, hexact.live, hexact.known, huncovered.nodup, fun p t => huncovered.top_eq_some, ?_⟩
  intro hmounts hhost hfresh p
  apply huncovered.top_perm hfresh
  -- Both have each mount once.
  rw [List.perm_ext_iff_of_nodup huncovered.nodup hfresh.nodup]
  intro t
  rw [show (Sup.start s.plan host).tree = buildRoot host s.plan.mounts from rfl, mem_buildRoot]
  constructor
  · intro ht
    have hknown := hexact.known t ht
    rw [hmounts, hhost] at hknown
    simpa using hknown
  · rintro ⟨m, hm, hpresent, rfl⟩
    exact hexact.planned m hm hpresent

/-- A plan with a share of a host directory at `/data`. -/
def dataShared (src : String) : Plan :=
  match Plan.build (.instance_ "demo" none)
      { mount := [("data", ⟨some ["srv", src], ["data"], .readWrite, false⟩)] } plainHost with
  | .ok plan => plan
  | .error _ => networkPlan .host

/-- The share is another one after a reload, and what was mounted inside it is there again. -/
theorem mounted_exactly_data :
    ∃ s, run (fun s r => some (Sup.serve id s r)) (Sup.start (dataShared "one") fun _ => true)
        [.act (.mount ["srv", "x"] ["data", "x"] .readOnly true), .act (.reload (dataShared "two") {})] = some s ∧
      Mount.mounted (.bind ["srv", "two"] ["data"] false false) ∈ s.tree ∧
      Mount.mounted (.bind ["srv", "one"] ["data"] false false) ∉ s.tree ∧
      ∃ lm ∈ s.mounts, lm.place = ["data", "x"] ∧ s.tree.top ["data", "x", "file"] = some lm.mounted := by
  obtain ⟨s, hrun, hends⟩ := exists_of_any
    (o := run (fun s r => some (Sup.serve id s r)) (Sup.start (dataShared "one") fun _ => true)
      [.act (.mount ["srv", "x"] ["data", "x"] .readOnly true), .act (.reload (dataShared "two") {})])
    (p := fun s => s.plan = dataShared "two" ∧ s.mounts = [⟨["srv", "x"], ["data", "x"], .readOnly⟩] ∧
      ∀ u ∈ s.tree, u.place <+: ["data", "x", "file"] → u.place <+: ["data", "x"])
    (by decide)
  obtain ⟨hplan, hmounts, hdeepest⟩ := of_decide_eq_true hends
  obtain ⟨hplanned, hlive, hknown, _, hseen, _⟩ := @mounted_exactly id (fun _ => rfl)
    (dataShared "one") (fun _ => true) (by decide) (by decide +kernel) _ _ (by decide +kernel) hrun
  rw [hplan] at hplanned hknown
  refine ⟨s, hrun, hplanned _ (by decide) rfl, fun hone => ?_, ⟨["srv", "x"], ["data", "x"], .readOnly⟩, ?_, rfl, ?_⟩
  · rcases hknown _ hone with ⟨m, hm, _, hmounted⟩ | ⟨lm, _, hmounted⟩
    · obtain rfl := Mount.mounted_injective hmounted
      revert hm
      decide
    · simp [LiveMount.mounted, Mount.mounted] at hmounted
  · rw [hmounts]
    exact List.mem_cons_self
  · apply (hseen _ _).mpr
    refine ⟨hlive _ ?_, by decide, hdeepest⟩
    rw [hmounts]
    exact List.mem_cons_self

/-- After such a run, a refresh of an overlay that is mounted keeps all that is mounted, but for the mounts
beneath the overlay that come before it in the plan: they are gone. -/
theorem refresh_keeps_iff {lossy : String → String} (hlossy : ∀ name, lossy (lossy name) = lossy name) {plan : Plan}
    {host : Path → Bool} (hplan : plan.Distinct) (hroot : MountTree.Uncovered (Sup.start plan host).tree)
    {rs : List Sup.Request} {s : Sup}
    (hclear : StepsMeet (fun s r => some (s.serve lossy r)) (Sup.Clear lossy) (Sup.start plan host) rs)
    (hrun : run (fun s r => some (s.serve lossy r)) (Sup.start plan host) rs = some s)
    {overlaps linked : Path → Bool} {faults : Nat → Sup.RefreshFaults} {i : Nat} {m : Mount} {fresh : Tree}
    (hrenews : s.Renews overlaps linked faults i m fresh) (hmounted : m.mounted ∈ s.tree)
    (hlinked : ∀ m ∈ s.plan.mounts, linked m.dst = false)
    (hdone : (Sup.refreshAt overlaps linked faults (s, false) i).2 = false) :
    ∀ t ∈ s.tree, t ∈ (Sup.refreshAt overlaps linked faults (s, false) i).1.tree ↔
      ∀ o ∈ s.plan.mounts.take i, m.dst <+: o.dst → o.mounted ≠ t := by
  obtain ⟨hexact, huncovered⟩ := Sup.exact_of_run hlossy hplan hroot hclear hrun
  obtain ⟨hm, ⟨lower, dst, optional, rfl, hoverlaps⟩, htree⟩ := hrenews
  obtain ⟨hassembled⟩ := Sup.assembled htree
  have hround : Sup.refreshAt overlaps linked faults (s, false) i =
      ({ s with tree := (Sup.swapIn s.tree dst fresh (faults i)).1 }, !(Sup.swapIn s.tree dst fresh (faults i)).2) := by
    unfold Sup.refreshAt Sup.refreshOverlay
    simp only [hm, hoverlaps, if_true, htree]
    cases hswap : (Sup.swapIn s.tree dst fresh (faults i)).2 <;> simp [Mount.dst, hswap]
  rw [hround] at hdone ⊢
  -- The overlay is what is seen at its place.
  have hpoint : Sup.isMountPoint s.tree dst = true := by
    have htop : s.tree.top dst = some (Mount.overlay lower dst optional).mounted :=
      huncovered.top_eq_some.mpr ⟨hmounted, List.prefix_refl _, fun _ _ hu => hu⟩
    simp [Sup.isMountPoint, htop, Mount.mounted, Mount.dst]
  have hmem : ∀ t, t ∈ (Sup.swapIn s.tree dst fresh (faults i)).1 ↔ t ∈ fresh ∨ (t ∈ s.tree ∧ ¬dst <+: t.place) := by
    unfold Sup.swapIn at hdone ⊢
    split
    · rename_i hcheck
      simp [hcheck] at hdone
    rename_i hcheck
    simp only [if_neg hcheck, if_pos hpoint] at hdone ⊢
    rcases Sup.replace_cases s.tree dst fresh (faults i) with hsame | ⟨T', hslip, hhalf | ⟨T'', hdetach, hall⟩⟩
    · simp [hsame] at hdone
    · simp [hhalf] at hdone
    · rw [hall]
      exact fun t => huncovered.mem_replaced hslip hdetach
  intro t ht
  rw [hmem]
  by_cases hbeneath : dst <+: t.place
  · rw [or_iff_left fun hother => hother.2 hbeneath, hexact.mem_fresh_iff hm hassembled hlinked ht hbeneath]
    refine forall₂_congr fun o ho => ?_
    constructor
    · exact fun hne _ => hne
    · rintro hne rfl
      exact hne hbeneath rfl
  · refine iff_of_true (Or.inr ⟨ht, hbeneath⟩) ?_
    rintro o _ hprefixed rfl
    exact hbeneath hprefixed

/-- A plan with an overlay at the place of the PulseAudio socket's directory, and with the audio sockets or
not. -/
def pulseShared (devices : List DeviceClass) : Plan :=
  match Plan.build (.instance_ "demo" none)
      { devices := devices
        mount := [("pulse", ⟨some ["srv", "pulse"], ["run", "user", "1000", "pulse"], .overlay, false⟩)] } plainHost with
  | .ok plan => plan
  | .error _ => networkPlan .host

/-- The socket that a reload has attached on the overlay is gone after a refresh. -/
theorem refresh_keeps_iff_pulse :
    ∃ s, run (fun s r => some (Sup.serve id s r)) (Sup.start (pulseShared []) fun _ => true)
        [.act (.reload (pulseShared [.audio]) {})] = some s ∧
      ∃ o ∈ s.plan.mounts, o.dst = ["run", "user", "1000", "pulse", "native"] ∧ o.mounted ∈ s.tree ∧
        o.mounted ∉ (Sup.refreshAt (fun _ => true) (fun _ => false) (fun _ => {}) (s, false) 20).1.tree := by
  obtain ⟨s, hrun, hends⟩ := exists_of_any
    (o := run (fun s r => some (Sup.serve id s r)) (Sup.start (pulseShared []) fun _ => true)
      [.act (.reload (pulseShared [.audio]) {})])
    (p := fun s => s.plan = pulseShared [.audio] ∧
      Mount.mounted (.overlay ["srv", "pulse"] ["run", "user", "1000", "pulse"] false) ∈ s.tree ∧
      (Sup.refreshAt (fun _ => true) (fun _ => false) (fun _ => {}) (s, false) 20).2 = false ∧
      s.overlayTree (.overlay ["srv", "pulse"] ["run", "user", "1000", "pulse"] false) (s.plan.mounts.take 20)
        (s.plan.mounts.drop 21) (fun _ => false) {} =
          some (some [Mount.mounted (.overlay ["srv", "pulse"] ["run", "user", "1000", "pulse"] false)]))
    (by decide)
  obtain ⟨hplan, hmounted, hdone, htree⟩ := of_decide_eq_true hends
  obtain ⟨hexact, _⟩ := @Sup.exact_of_run id (fun _ => true) s (fun _ => rfl) (pulseShared []) (by decide)
    (by decide) _ (by decide +kernel) hrun
  have hkeeps := @refresh_keeps_iff id (fun _ => rfl) (pulseShared []) (fun _ => true) (by decide)
    (by decide) _ _ (by decide +kernel) hrun _ _ _ _
    (.overlay ["srv", "pulse"] ["run", "user", "1000", "pulse"] false) _
    ⟨by rw [hplan]; decide, ⟨_, _, _, rfl, rfl⟩, htree⟩ hmounted (fun _ _ => rfl) hdone
  refine ⟨s, hrun, .bind ["run", "user", "1000", "pulse", "native"] ["run", "user", "1000", "pulse", "native"] true true,
    ?_, rfl, ?_, ?_⟩
  · rw [hplan]
    decide
  · apply hexact.planned _ _ rfl
    rw [hplan]
    decide
  · intro hleft
    have hnot := (hkeeps _ (hexact.planned _ (by rw [hplan]; decide) rfl)).mp hleft
    exact hnot (.bind ["run", "user", "1000", "pulse", "native"] ["run", "user", "1000", "pulse", "native"] true true)
      (by rw [hplan]; decide) (by decide) rfl

end Psbox.Sandbox
