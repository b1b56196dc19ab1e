import Psbox.Sandbox.Dialogs
import Psbox.Sandbox.Exact

/-!
# The List and the Tree

`Supervisor::expose` reads off a list where the sandbox sees a file: the mounts of the plan, then the
records of live mounts. In the tree of mounts they may be in another order, or missing.

Here runs are followed in which the list keeps to the tree (`InOrder`): all that is mounted is listed, and
a mount that covers another one is listed after it. Then what the list has on top is on top in the tree,
when it is mounted at all, and so the answers are true (`exposed_shown`). Each request has a condition of
its own (`KeepsOrder`): an umount is to take away the record of what it detaches, a reload is to detach what
it drops.
-/

namespace Psbox.Sandbox

open Psbox.Foundations

/-! ## Section 1: What is Listed -/

/-- The paths of the plan are made of names. -/
def Plan.Named (plan : Plan) : Prop :=
  ∀ m ∈ plan.mounts, Spelling.path m.dst = m.dst ∧ ∀ src ∈ m.writable, Spelling.path src = src

instance (plan : Plan) : Decidable plan.Named :=
  inferInstanceAs (Decidable (∀ m ∈ plan.mounts, _ ∧ ∀ src ∈ m.writable, _))

private theorem path_spelled {p : Path} (h : Spelling.path p = p) : Spelling.path (Sup.Path.spelled p) = p := by
  unfold Sup.Path.spelled
  split
  · rename_i hnil
    rw [hnil]
    rfl
  · exact h

/-- Nothing that contains the path is listed after what is on top there. -/
theorem le_of_topListed {mounts : List (Option Spelling × Spelling)} {path : Path} {i j : Nat}
    {m : Option Spelling × Spelling} (h : topListed mounts path = some i) (hm : mounts[j]? = some m)
    (hpath : m.2.path <+: path) : j ≤ i := by
  have hsorted : ((mounts.zipIdx.filter fun x => x.1.2.path <+: path).map fun x =>
      (x.2, x.1.2.path.length)).Pairwise fun x y => x.1 < y.1 := by
    apply List.Pairwise.map (R := fun x y => x.2 < y.2) _ (fun _ _ hlt => hlt)
    apply List.Pairwise.filter
    apply List.pairwise_map.mp
    rw [List.zipIdx_map_snd]
    exact List.pairwise_lt_range'
  have hmem : (j, m.2.path.length) ∈ (mounts.zipIdx.filter fun x => x.1.2.path <+: path).map fun x =>
      (x.2, x.1.2.path.length) :=
    List.mem_map.mpr ⟨(m, j), List.mem_filter.mpr
      ⟨List.mem_zipIdx_iff_getElem?.mpr hm, decide_eq_true hpath⟩, rfl⟩
  unfold topListed at h
  dsimp only at h
  split at h
  · cases h
  · rename_i last depth hlast
    split at h
    · cases h
      obtain ⟨before, hsplit⟩ := List.getLast?_eq_some_iff.mp hlast
      rw [hsplit] at hsorted hmem
      rcases List.mem_append.mp hmem with hmem | hmem
      · exact ((List.pairwise_append.mp hsorted).2.2 _ hmem _ List.mem_cons_self).le
      · exact (congrArg Prod.fst (List.mem_singleton.mp hmem)).le
    · cases h

/-- A live mount. -/
def Mounted.isLive (t : Mounted String Source) : Bool :=
  t.what.asLive.isSome

@[simp] theorem Mount.isLive_mounted (m : Mount) : Mounted.isLive m.mounted = false := rfl

@[simp] theorem LiveMount.isLive_mounted (lm : LiveMount) : Mounted.isLive lm.mounted = true := rfl

namespace Sup

/-- What the list is of. -/
def inPlace (s : Sup) : List (Mounted String Source) :=
  s.plan.mounts.map Mount.mounted ++ s.mounts.map LiveMount.mounted

/-- The list has their places, and what can be written through them. -/
theorem listed_map {s : Sup} (hnamed : s.plan.Named) :
    s.listed.map (fun x => (x.1.map Spelling.path, Spelling.path x.2)) =
      s.inPlace.map fun t => (t.what.writable, t.place) := by
  unfold listed inPlace
  rw [List.map_append, List.map_append, List.map_map, List.map_map, List.map_map, List.map_map]
  congr 1
  · apply List.map_congr_left
    intro m hm
    obtain ⟨hdst, hsrc⟩ := hnamed m hm
    have hwritable : (m.writable.map Path.spelled).map Spelling.path = m.writable := by
      cases hw : m.writable with
      | none => rfl
      | some src => exact congrArg some (path_spelled (hsrc src hw))
    exact Prod.ext hwritable (path_spelled hdst)
  · apply List.map_congr_left
    intro lm _
    by_cases hmode : lm.mode = .readWrite
    · simp [hmode, LiveMount.mounted, Source.writable]
    · simp [hmode, LiveMount.mounted, Source.writable]

private theorem inPlace_of_listed {s : Sup} (hnamed : s.plan.Named) {i : Nat} {x : Option Spelling × Spelling}
    (hx : s.listed[i]? = some x) : ∃ t, s.inPlace[i]? = some t ∧ t.place = x.2.path ∧
      t.what.writable = x.1.map Spelling.path := by
  have hboth := congrArg (·[i]?) (listed_map hnamed)
  simp only [List.getElem?_map, hx, Option.map_some] at hboth
  obtain ⟨t, ht, hsame⟩ := Option.map_eq_some_iff.mp hboth.symm
  exact ⟨t, ht, congrArg Prod.snd hsame, congrArg Prod.fst hsame⟩

private theorem listed_of_inPlace {s : Sup} (hnamed : s.plan.Named) {i : Nat} {t : Mounted String Source}
    (ht : s.inPlace[i]? = some t) : ∃ x, s.listed[i]? = some x ∧ x.2.path = t.place := by
  have hboth := congrArg (·[i]?) (listed_map hnamed)
  simp only [List.getElem?_map, ht, Option.map_some] at hboth
  obtain ⟨x, hx, hsame⟩ := Option.map_eq_some_iff.mp hboth
  exact ⟨x, hx, congrArg Prod.snd hsame⟩

/-! ## Section 2: The List Keeps to the Tree -/

/-- All that is mounted is listed, all records are mounted, and what covers a mount is listed after it. -/
structure InOrder (lossy : String → String) (s : Sup) : Prop where
  named : s.plan.Named
  planned : ∀ t ∈ s.tree, Mounted.isLive t = false → ∃ m ∈ s.plan.mounts, m.mounted = t
  live : s.tree.filter Mounted.isLive = (s.mounts.map LiveMount.mounted).reverse
  /-- A mount of the plan covers no live mount, and none that comes after it in the plan. -/
  order : s.tree.Pairwise fun u t => Mounted.isLive u = false → u.place <+: t.place →
    Mounted.isLive t = false ∧ [t, u].Sublist (s.plan.mounts.map Mount.mounted)
  /-- Records are the same when they are written down again. -/
  again : ∀ lm ∈ s.mounts, lm.again lossy = lm

variable {lossy : String → String} {s s' : Sup}

private theorem InOrder.mem_live (h : s.InOrder lossy) {t : Mounted String Source} (ht : t ∈ s.tree)
    (hlive : Mounted.isLive t = true) : ∃ lm ∈ s.mounts, lm.mounted = t := by
  have hmem : t ∈ s.tree.filter Mounted.isLive := List.mem_filter.mpr ⟨ht, hlive⟩
  rw [h.live, List.mem_reverse] at hmem
  exact List.mem_map.mp hmem

theorem InOrder.mounted (h : s.InOrder lossy) {lm : LiveMount} (hlm : lm ∈ s.mounts) : lm.mounted ∈ s.tree := by
  have hmem : lm.mounted ∈ s.tree.filter Mounted.isLive := by
    rw [h.live, List.mem_reverse]
    exact List.mem_map_of_mem hlm
  exact List.mem_of_mem_filter hmem

/-- What covers a mount is listed after it, be it of the plan or live. -/
theorem InOrder.listed (h : s.InOrder lossy) :
    s.tree.Pairwise fun u t => u.place <+: t.place → [t, u].Sublist s.inPlace := by
  rw [List.pairwise_iff_forall_sublist]
  intro u t hsub hplace
  cases hu : Mounted.isLive u with
  | false =>
      obtain ⟨_, hlisted⟩ := List.pairwise_iff_forall_sublist.mp h.order hsub hu hplace
      exact hlisted.trans (List.sublist_append_left _ _)
  | true =>
      have hut : u ∈ s.tree ∧ t ∈ s.tree := ⟨hsub.subset (by simp), hsub.subset (by simp)⟩
      obtain ⟨lm, hlm, rfl⟩ := h.mem_live hut.1 hu
      cases ht : Mounted.isLive t with
      | false =>
          obtain ⟨m, hm, rfl⟩ := h.planned t hut.2 ht
          exact List.Sublist.append (List.singleton_sublist.mpr (List.mem_map_of_mem hm))
            (List.singleton_sublist.mpr (List.mem_map_of_mem hlm))
      | true =>
          have hboth := hsub.filter Mounted.isLive
          rw [h.live, List.filter_cons_of_pos hu, List.filter_cons_of_pos ht, List.filter_nil] at hboth
          have hrecords := List.reverse_sublist.mp (by simpa using hboth : [t, lm.mounted].reverse.Sublist _)
          exact hrecords.trans (List.sublist_append_right _ _)

/-- The writable binds of the plan that the file is in are mounted, and none that counts is of the file
itself: there the answer has a slash too many. -/
def Reached (s : Sup) (h : Spelling) : Prop :=
  (∀ m ∈ s.plan.mounts, ∀ src ∈ m.writable, src <+: h.path → m.mounted ∈ s.tree) ∧
    ∀ x ∈ s.listed.zipIdx, ∀ src ∈ x.1.1, Spelling.path src = h.path →
      topListed s.listed x.1.2.path ≠ some x.2

instance (s : Sup) (h : Spelling) : Decidable (s.Reached h) :=
  inferInstanceAs (Decidable ((∀ m ∈ s.plan.mounts, ∀ src ∈ m.writable, src <+: h.path → m.mounted ∈ s.tree) ∧
    ∀ x ∈ s.listed.zipIdx, ∀ src ∈ x.1.1, _ → _))

/-- What is listed on top, and is mounted, is on top. -/
theorem InOrder.top_eq (h : s.InOrder lossy) {p : Path} {i : Nat} {t : Mounted String Source}
    (htop : topListed s.listed p = some i) (ht : s.inPlace[i]? = some t) (hmounted : t ∈ s.tree) :
    s.tree.top p = some t := by
  obtain ⟨x, hx, hxt⟩ := listed_of_inPlace h.named ht
  obtain ⟨x', hx', hcontains, hdeepest⟩ := topListed_eq_some htop
  obtain rfl := Option.some.inj (hx.symm.trans hx')
  rw [hxt] at hcontains hdeepest
  have hsome : (s.tree.top p).isSome := by
    rw [Option.isSome_iff_ne_none]
    exact fun hnone => MountTree.top_eq_none.mp hnone t hmounted hcontains
  obtain ⟨u, hu⟩ := Option.isSome_iff_exists.mp hsome
  obtain ⟨newer, older, hT, huplace, hnewer⟩ := MountTree.top_eq_some.mp hu
  rw [hu]
  by_contra hne
  -- Another one on top covers it.
  rw [hT] at hmounted
  have holder : t ∈ older := by
    rcases List.mem_append.mp hmounted with hmem | hmem
    · exact absurd hcontains (hnewer t hmem)
    rcases List.mem_cons.mp hmem with rfl | hmem
    · exact absurd rfl hne
    · exact hmem
  have hpair := h.listed
  rw [hT, List.pairwise_append, List.pairwise_cons] at hpair
  -- So it is listed after it, and no deeper: the list has not `t` on top.
  have hcovers : u.place <+: t.place := by
    have hmem : u ∈ s.inPlace := by
      have hut : u ∈ s.tree := by simp [hT]
      cases hlive : Mounted.isLive u with
      | false =>
          obtain ⟨m, hm, rfl⟩ := h.planned u hut hlive
          exact List.mem_append_left _ (List.mem_map_of_mem hm)
      | true =>
          obtain ⟨lm, hlm, rfl⟩ := h.mem_live hut hlive
          exact List.mem_append_right _ (List.mem_map_of_mem hlm)
    obtain ⟨j, hj⟩ := List.mem_iff_getElem?.mp hmem
    obtain ⟨y, hy, hyu⟩ := listed_of_inPlace h.named hj
    have hdepth := (hdeepest j y hy (hyu ▸ huplace)).1
    rw [hyu] at hdepth
    exact List.prefix_of_prefix_length_le huplace hcontains hdepth
  obtain ⟨before, after, hsplit, htbefore, huafter⟩ := List.cons_sublist_iff.mp (hpair.2.1.1 t holder hcovers)
  obtain ⟨a, ha⟩ := List.mem_iff_getElem?.mp htbefore
  obtain ⟨b, hb⟩ := List.mem_iff_getElem?.mp (List.singleton_sublist.mp huafter)
  have halt : a < before.length := (List.getElem?_eq_some_iff.mp ha).1
  have hat : s.inPlace[a]? = some t := by
    rw [hsplit, List.getElem?_append_left halt]
    exact ha
  have hbt : s.inPlace[before.length + b]? = some u := by
    rw [hsplit, List.getElem?_append_right (by omega), Nat.add_sub_cancel_left]
    exact hb
  obtain ⟨y, hy, hyt⟩ := listed_of_inPlace h.named hat
  obtain ⟨z, hz, hzu⟩ := listed_of_inPlace h.named hbt
  have hai : a = i := (hdeepest a y hy (hyt ▸ hcontains)).2 (by rw [hyt])
  have hbi : before.length + b ≤ i := le_of_topListed htop hz (hzu ▸ huplace)
  omega

/-- The list and the tree agree about a file. -/
theorem InOrder.agrees (h : s.InOrder lossy) {path : Spelling} (hreached : s.Reached path) : s.Agrees path := by
  intro src dst rest hthrough
  have hnil := hthrough.rest_eq_nil
  obtain ⟨i, hm, hrest, htop, _⟩ := hthrough
  obtain ⟨hpath, _⟩ := Spelling.strip_eq_some hrest
  obtain ⟨t, ht, hplace, hwritable⟩ := inPlace_of_listed h.named hm
  have hmounted : t ∈ s.tree := by
    rcases List.mem_append.mp (List.mem_of_getElem? ht) with hmem | hmem
    · obtain ⟨m, hplan, rfl⟩ := List.mem_map.mp hmem
      exact hreached.1 m hplan src.path hwritable ⟨rest.path, hpath.symm⟩
    · obtain ⟨lm, hlm, rfl⟩ := List.mem_map.mp hmem
      exact h.mounted hlm
  refine ⟨fun hwhole => ?_, t, h.top_eq htop ht hmounted, src.path, hwritable, Or.inl ⟨[], by simp, ?_⟩⟩
  · rw [hnil.mpr hwhole, Spelling.path_join] at htop
    refine hreached.2 ((some src, dst), i) (List.mem_zipIdx_iff_getElem?.mpr hm) src rfl hwhole ?_
    simpa [Spelling.path] using htop
  · rw [hplace, List.append_nil]

/-! ## Section 3: Requests That Keep to the Order -/

/-- When a record of a place goes that is written as the umount writes it, no other of the place comes after
it. -/
def Alone (s : Sup) (p : Path) : Prop :=
  ((s.recordsAt p).dropWhile fun lm => lm.place ≠ p).length ≤ 1

instance (s : Sup) (p : Path) : Decidable (s.Alone p) :=
  inferInstanceAs (Decidable (_ ≤ 1))

/-- A reload that is done as it was meant. -/
structure Swaps (lossy : String → String) (s : Sup) (new : Plan) (faults : Faults) : Prop where
  named : new.Named
  /-- What stays is at no place that changes. -/
  apart : Plan.Apart s.plan new
  /-- What stays comes in the same order in both plans. -/
  same : s.plan.mounts.filter (Plan.keeps s.plan new) = new.mounts.filter (Plan.keeps s.plan new)
  /-- What goes is on top, if it was ever mounted. -/
  seen : ∀ m ∈ Plan.dropped s.plan new, s.tree.OnTop m.mounted
  /-- The live mounts that have to make way go with something that is detached. -/
  leave : ∀ lm ∈ s.mounts, Change.touches (s.plan.diff new) lm = true →
    ∃ m ∈ Plan.dropped s.plan new, m.mounted ∈ s.tree ∧ m.dst <+: lm.place.path
  /-- Nothing fails. -/
  done : (s.step lossy (.reload new faults)).unapplied = s.unapplied

instance (lossy : String → String) (s : Sup) (new : Plan) (faults : Faults) : Decidable (s.Swaps lossy new faults) :=
  decidable_of_iff (new.Named ∧ Plan.Apart s.plan new ∧
      s.plan.mounts.filter (Plan.keeps s.plan new) = new.mounts.filter (Plan.keeps s.plan new) ∧
      (∀ m ∈ Plan.dropped s.plan new, s.tree.OnTop m.mounted) ∧
      (∀ lm ∈ s.mounts, Change.touches (s.plan.diff new) lm = true →
        ∃ m ∈ Plan.dropped s.plan new, m.mounted ∈ s.tree ∧ m.dst <+: lm.place.path) ∧
      (s.step lossy (.reload new faults)).unapplied = s.unapplied)
    ⟨fun ⟨hnamed, hapart, hsame, hseen, hleave, hdone⟩ => ⟨hnamed, hapart, hsame, hseen, hleave, hdone⟩,
      fun h => ⟨h.named, h.apart, h.same, h.seen, h.leave, h.done⟩⟩

/-- What a request has to be for the list to keep to the tree, and for an answer to be true. -/
def KeepsOrder (lossy : String → String) (s : Sup) : Action → Prop
  | .appear _ => True
  | .mount src dst _ _ => Readable lossy src ∧ Readable lossy dst
  | .umount dst _ => s.Alone dst.path ∧ ∀ t ∈ s.tree.newer dst.path, ¬dst.path <+: t.place
  | .expose h _ _ _ => s.Reached h ∧ (s.visibleAt h = none → ∀ file ∈ fileName h,
      Readable lossy h ∧ Readable lossy (s.plan.runtimeDir ++ ["doc", toString (s.docs + 1), file]))
  | .reload new faults => (s.apply lossy new faults).isSome → (s.plan.diff new).restart = [] →
      s.Swaps lossy new faults

instance (lossy : String → String) (p : Spelling) : Decidable (Readable lossy p) :=
  inferInstanceAs (Decidable (_ = _))

instance (lossy : String → String) (s : Sup) (a : Action) : Decidable (s.KeepsOrder lossy a) :=
  match a with
  | .appear _ => isTrue trivial
  | .mount src dst _ _ => inferInstanceAs (Decidable (Readable lossy src ∧ Readable lossy dst))
  | .umount dst _ =>
      inferInstanceAs (Decidable (s.Alone dst.path ∧ ∀ t ∈ s.tree.newer dst.path, ¬dst.path <+: t.place))
  | .expose h _ _ _ => inferInstanceAs (Decidable (s.Reached h ∧ (s.visibleAt h = none → ∀ file ∈ fileName h,
      Readable lossy h ∧ Readable lossy (s.plan.runtimeDir ++ ["doc", toString (s.docs + 1), file]))))
  | .reload new faults => inferInstanceAs (Decidable ((s.apply lossy new faults).isSome →
      (s.plan.diff new).restart = [] → s.Swaps lossy new faults))

theorem InOrder.start {plan : Plan} (hplan : plan.Named) (host : Path → Bool) :
    InOrder lossy (Sup.start plan host) := by
  have htree : (Sup.start plan host).tree = ((plan.mounts.filter (Mount.present host)).map Mount.mounted).reverse :=
    buildRoot_eq host plan.mounts
  have hplanned : ∀ t ∈ (Sup.start plan host).tree, ∃ m ∈ plan.mounts, m.mounted = t := by
    intro t ht
    obtain ⟨m, hm, _, hmounted⟩ := mem_buildRoot.mp ht
    exact ⟨m, hm, hmounted⟩
  refine ⟨hplan, fun t ht _ => hplanned t ht, ?_, ?_, by simp [Sup.start]⟩
  · apply List.filter_eq_nil_iff.mpr
    intro t ht
    obtain ⟨m, _, rfl⟩ := hplanned t ht
    simp
  · rw [List.pairwise_iff_forall_sublist]
    intro u t hsub _ _
    obtain ⟨m, _, rfl⟩ := hplanned t (hsub.subset (by simp))
    rw [htree] at hsub
    have hlisted := List.reverse_sublist.mp (by simpa using hsub : [m.mounted, u].reverse.Sublist _)
    exact ⟨rfl, hlisted.trans (List.filter_sublist.map Mount.mounted)⟩

theorem InOrder.of_same (h : s.InOrder lossy) (hplan : s'.plan = s.plan) (htree : s'.tree = s.tree)
    (hmounts : s'.mounts = s.mounts) : s'.InOrder lossy := by
  refine {
    named := hplan ▸ h.named, planned := ?planned, live := ?live, order := ?order,
    again := hmounts ▸ h.again }
  case planned =>
    rw [hplan, htree]
    exact h.planned
  case live =>
    rw [hmounts, htree]
    exact h.live
  case order =>
    rw [hplan, htree]
    exact h.order

/-- A live mount is listed last. -/
theorem InOrder.push (h : s.InOrder lossy) (hlossy : ∀ name, lossy (lossy name) = lossy name) {src dst : Spelling}
    {mode : MountMode} (hpushed : Pushed lossy s s' src dst mode) (hplan : s'.plan = s.plan)
    (hread : Readable lossy src ∧ Readable lossy dst) : s'.InOrder lossy := by
  have hrecord := mounted_record mode hread
  refine {
    named := hplan ▸ h.named, planned := ?planned, live := ?live, order := ?order, again := ?again }
  case planned =>
    rw [hplan, hpushed.tree]
    intro t ht hplanned
    rcases List.mem_cons.mp ht with rfl | ht
    · cases hplanned
    · exact h.planned t ht hplanned
  case live =>
    rw [hpushed.tree, hpushed.mounts, List.map_append, List.reverse_append, ← h.live, List.map_singleton, hrecord]
    exact List.filter_cons_of_pos rfl
  case order =>
    rw [hplan, hpushed.tree]
    exact List.pairwise_cons.mpr ⟨fun t _ hlive => Bool.noConfusion hlive, h.order⟩
  case again =>
    rw [hpushed.mounts]
    intro lm hlm
    rcases List.mem_append.mp hlm with hlm | hlm
    · exact h.again lm hlm
    · obtain rfl := List.mem_singleton.mp hlm
      simp [LiveMount.again, hlossy]

/-- A list is parted in one way at the first that passes a check. -/
theorem append_cons_inj {α : Type} {p : α → Bool} {l l' r r' : List α} {a a' : α} (h : l ++ a :: r = l' ++ a' :: r')
    (hl : ∀ x ∈ l, p x = false) (hl' : ∀ x ∈ l', p x = false) (ha : p a = true) (ha' : p a' = true) :
    l = l' ∧ a = a' ∧ r = r' := by
  induction l generalizing l' with
  | nil =>
      cases l' with
      | nil => exact ⟨rfl, List.cons.inj h⟩
      | cons x l' =>
          obtain ⟨rfl, _⟩ := List.cons.inj h
          rw [hl' a List.mem_cons_self] at ha
          cases ha
  | cons x l ih =>
      cases l' with
      | nil =>
          obtain ⟨rfl, _⟩ := List.cons.inj h
          rw [hl x List.mem_cons_self] at ha'
          cases ha'
      | cons y l' =>
          obtain ⟨rfl, hrest⟩ := List.cons.inj h
          obtain ⟨rfl, hsame⟩ := ih hrest (fun z hz => hl z (List.mem_cons_of_mem x hz))
            (fun z hz => hl' z (List.mem_cons_of_mem x hz))
          exact ⟨rfl, hsame⟩

/-- The record that goes is that of the mount which is detached. -/
theorem InOrder.pop (h : s.InOrder lossy) {dst : Spelling} {ok : Bool} (hs : s.umount dst ok = some s')
    (halone : s.Alone dst.path) (hbeneath : ∀ t ∈ s.tree.newer dst.path, ¬dst.path <+: t.place) :
    s'.InOrder lossy := by
  obtain ⟨_, hplan, _⟩ := umount_detach hs
  obtain ⟨hpopped⟩ := umount_popped hs
  have hplace : hpopped.record.mounted.place = dst.path := by
    rw [LiveMount.mounted, hpopped.place, path_path]
  have hafter : ∀ lm ∈ hpopped.after, lm.mounted.place ≠ dst.path := by
    intro lm hlm hsame
    have hfrom : (s.recordsAt dst.path).dropWhile (fun lm => lm.place ≠ dst.path) =
        hpopped.record :: hpopped.after.filter fun lm => lm.place.path = dst.path := hpopped.dropWhile_recordsAt (path_path dst)
    have hone : (hpopped.after.filter fun lm => lm.place.path = dst.path).length = 0 := by
      have hlength : ((s.recordsAt dst.path).dropWhile fun lm => lm.place ≠ dst.path).length ≤ 1 := halone
      rw [hfrom, List.length_cons] at hlength
      omega
    rw [List.length_eq_zero_iff, List.filter_eq_nil_iff] at hone
    exact hone lm hlm (decide_eq_true hsame)
  have hnewer : (s.tree.newer dst.path).filter (fun u => ¬dst.path <+: u.place) = s.tree.newer dst.path := by
    apply List.filter_eq_self.mpr
    intro t ht
    simpa using hbeneath t ht
  have htree' : s'.tree = s.tree.newer dst.path ++ hpopped.older := by
    rw [hpopped.tree', hnewer]
  have hsub : s'.tree.Sublist s.tree := by
    have hall := (List.sublist_cons_self hpopped.top hpopped.older).append_left (s.tree.newer dst.path)
    rw [← hpopped.tree, ← htree'] at hall
    exact hall
  -- The mount that goes is live: one of the plan would cover the record's.
  have htop : Mounted.isLive hpopped.top = true := by
    by_contra hplanned
    have hrecord : hpopped.record.mounted ∈ s.tree := h.mounted (by simp [hpopped.mounts])
    have horder := h.order
    rw [hpopped.tree] at hrecord horder
    rcases List.mem_append.mp hrecord with hrecord | hrecord
    · exact Popped.ne_of_newer hrecord hplace
    rcases List.mem_cons.mp hrecord with heq | hrecord
    · rw [← heq] at hplanned
      exact hplanned rfl
    · have hcover := (List.pairwise_cons.mp (List.pairwise_append.mp horder).2.1).1 _ hrecord (by simpa using hplanned)
      rw [hpopped.top_place, hplace] at hcover
      cases (hcover (List.prefix_refl _)).1
  have hparts : (s.tree.newer dst.path).filter Mounted.isLive ++ hpopped.top :: hpopped.older.filter Mounted.isLive =
      (hpopped.after.map LiveMount.mounted).reverse ++
        hpopped.record.mounted :: (hpopped.before.map LiveMount.mounted).reverse := by
    have hlive := h.live
    rw [hpopped.tree, hpopped.mounts, List.filter_append, List.filter_cons_of_pos htop] at hlive
    rw [hlive]
    simp
  obtain ⟨hleft, _, hright⟩ := append_cons_inj (p := fun t => decide (t.place = dst.path)) hparts
    (fun t ht => decide_eq_false (Popped.ne_of_newer (List.mem_of_mem_filter ht)))
    (fun t ht => by
      obtain ⟨lm, hlm, rfl⟩ := List.mem_map.mp (List.mem_reverse.mp ht)
      exact decide_eq_false (hafter lm hlm))
    (decide_eq_true hpopped.top_place) (decide_eq_true hplace)
  refine {
    named := hplan ▸ h.named, planned := ?planned, live := ?live, order := ?order, again := ?again }
  case planned =>
    rw [hplan]
    exact fun t ht => h.planned t (hsub.subset ht)
  case live =>
    rw [htree', List.filter_append, hleft, hright, hpopped.mounts', List.map_append, List.reverse_append]
  case order =>
    rw [hplan]
    exact h.order.sublist hsub
  case again =>
    rw [hpopped.mounts']
    intro lm hlm
    apply h.again lm
    rw [hpopped.mounts]
    rcases List.mem_append.mp hlm with hlm | hlm
    · exact List.mem_append_left _ hlm
    · exact List.mem_append_right _ (List.mem_cons_of_mem _ hlm)

/-! ## Section 4: Reloads -/

/-- Whether a reload leaves a mount alone. -/
def Mounted.left (old new : Plan) (t : Mounted String Source) : Bool :=
  match t.what with
  | .plan m => Plan.keeps old new m
  | .live _ _ => !(Plan.dropped old new ++ Plan.added old new).any fun m => m.dst <+: t.place

private theorem left_live {old new : Plan} (hrestart : (old.diff new).restart = []) (lm : LiveMount) :
    Mounted.left old new lm.mounted = !Change.touches (old.diff new) lm := by
  obtain ⟨hdetach, hattach⟩ := Plan.diff_of_restart hrestart
  unfold Change.touches
  rw [hdetach, hattach]
  rfl

/-- Nothing that is left alone is at or beneath a place that changes. -/
theorem not_prefix_of_left {new : Plan} {faults : Faults} (hnew : s.Swaps lossy new faults) {m : Mount}
    (hm : m ∈ Plan.dropped s.plan new ∨ m ∈ Plan.added s.plan new) {t : Mounted String Source}
    (hplanned : Mounted.isLive t = false → ∃ m ∈ s.plan.mounts, m.mounted = t)
    (hleft : Mounted.left s.plan new t = true) : ¬m.dst <+: t.place := by
  cases hlive : Mounted.isLive t with
  | false =>
      obtain ⟨u, _, rfl⟩ := hplanned hlive
      exact hnew.apart.not_prefix hm hleft
  | true =>
      intro hprefixed
      obtain ⟨place, what⟩ := t
      cases what with
      | plan u => cases hlive
      | live host mode =>
          have hnone : ¬((Plan.dropped s.plan new ++ Plan.added s.plan new).any fun m => m.dst <+: place) = true := by
            simpa [Mounted.left] using hleft
          exact hnone (List.any_eq_true.mpr ⟨m, List.mem_append.mpr hm, decide_eq_true hprefixed⟩)

/-- The detaches leave what they are to leave, in its order. -/
theorem InOrder.left_detached (h : s.InOrder lossy) {new : Plan} {faults : Faults} (hnew : s.Swaps lossy new faults)
    (hrestart : (s.plan.diff new).restart = []) :
    MountTree.detachEach ((Plan.dropped s.plan new).map Mount.dst) s.tree =
      s.tree.filter (Mounted.left s.plan new) := by
  have hstays : (MountTree.detachEach ((Plan.dropped s.plan new).map Mount.dst) s.tree).filter
      (Mounted.left s.plan new) = s.tree.filter (Mounted.left s.plan new) := by
    apply MountTree.filter_detachEach
    intro p hp t ht hleft
    obtain ⟨m, hm, rfl⟩ := List.mem_map.mp hp
    exact not_prefix_of_left hnew (Or.inl hm) (h.planned t ht) hleft
  rw [← hstays]
  symm
  apply List.filter_eq_self.mpr
  intro t hdetached
  by_contra hgoes
  have ht := (MountTree.detachEach_sublist _ _).subset hdetached
  cases hlive : Mounted.isLive t with
  | false =>
      -- A mount of the plan that is not left alone is one to detach, and on top.
      obtain ⟨m, hm, rfl⟩ := h.planned t ht hlive
      have hgoes' : Plan.keeps s.plan new m = false := Bool.eq_false_iff.mpr hgoes
      have hdropped : m ∈ Plan.dropped s.plan new := Plan.mem_dropped.mpr ⟨hm, hgoes'⟩
      have hplace : m.mounted.place ∈ (Plan.dropped s.plan new).map Mount.dst := List.mem_map_of_mem hdropped
      have hseen := hnew.seen m hdropped
      refine MountTree.notMem_detachEach hseen ?_ hplace (List.prefix_refl _) id hdetached
      apply hseen.imp_of_mem
      rintro u v _ _ hcover rfl rfl
      exact hcover rfl (List.prefix_refl _)
  | true =>
      obtain ⟨lm, hlm, rfl⟩ := h.mem_live ht hlive
      have htouched : Change.touches (s.plan.diff new) lm = true := by
        simpa [left_live hrestart] using hgoes
      obtain ⟨m, hdropped, hmounted, hbeneath⟩ := hnew.leave lm hlm htouched
      have hplace : m.mounted.place ∈ (Plan.dropped s.plan new).map Mount.dst := List.mem_map_of_mem hdropped
      have hbeneath' : m.mounted.place <+: lm.mounted.place := hbeneath
      refine MountTree.notMem_detachEach (hnew.seen m hdropped) ?_ hplace hbeneath' (fun _ => hmounted) hdetached
      apply h.order.imp
      rintro u v hcover rfl rfl
      cases (hcover rfl hbeneath).1

/-- A reload that is done as it was meant keeps the list to the tree. -/
theorem InOrder.exchange (h : s.InOrder lossy) {new : Plan} {faults : Faults} {back : List LiveMount}
    (hex : Exchanged s s' new back) (hnew : s.Swaps lossy new faults) (hrestart : (s.plan.diff new).restart = []) :
    s'.InOrder lossy := by
  have htree := hex.tree
  rw [h.left_detached hnew hrestart] at htree
  have hback : ∀ t ∈ (back.map LiveMount.mounted).reverse, Mounted.isLive t = true := by
    intro t ht
    obtain ⟨lm, _, rfl⟩ := List.mem_map.mp (List.mem_reverse.mp ht)
    rfl
  have hadded : ∀ t ∈ (((Plan.added s.plan new).filter (Mount.present s.host)).map Mount.mounted).reverse,
      ∃ m ∈ Plan.added s.plan new, m.mounted = t := by
    intro t ht
    obtain ⟨m, hm, rfl⟩ := List.mem_map.mp (List.mem_reverse.mp ht)
    exact ⟨m, List.mem_of_mem_filter hm, rfl⟩
  refine {
    named := hex.plan ▸ hnew.named, planned := ?planned, live := ?live, order := ?order,
    again := ?again }
  case planned =>
    rw [hex.plan, htree]
    intro t ht hplanned
    rcases List.mem_append.mp ht with ht | ht
    · rcases List.mem_append.mp ht with ht | ht
      · rw [hback t ht] at hplanned
        cases hplanned
      · obtain ⟨m, hm, rfl⟩ := hadded t ht
        exact ⟨m, (Plan.mem_added.mp hm).1, rfl⟩
    · obtain ⟨hold, hleft⟩ := List.mem_filter.mp ht
      obtain ⟨m, _, rfl⟩ := h.planned t hold hplanned
      exact ⟨m, (Plan.keeps_iff.mp hleft).2.1, rfl⟩
  case live =>
    have hnone : (((Plan.added s.plan new).filter (Mount.present s.host)).map Mount.mounted).reverse.filter
        Mounted.isLive = [] := by
      apply List.filter_eq_nil_iff.mpr
      intro t ht
      obtain ⟨m, _, rfl⟩ := hadded t ht
      simp
    have hrest : (s.tree.filter (Mounted.left s.plan new)).filter Mounted.isLive =
        ((s.mounts.filter fun lm => !Change.touches (s.plan.diff new) lm).map LiveMount.mounted).reverse := by
      have hcomp : Mounted.left s.plan new ∘ LiveMount.mounted = fun lm => !Change.touches (s.plan.diff new) lm :=
        funext (left_live hrestart)
      rw [List.filter_comm, h.live, List.filter_reverse, List.filter_map, hcomp]
    rw [htree, hex.mounts, List.filter_append, List.filter_append, hnone, hrest, List.filter_eq_self.mpr hback]
    simp
  case order =>
    rw [hex.plan, htree]
    refine List.pairwise_append.mpr ⟨List.pairwise_append.mpr ⟨?_, ?_, ?_⟩, ?_, ?_⟩
    · apply List.pairwise_of_forall_mem_list
      intro u hu t _ hplanned
      rw [hback u hu] at hplanned
      cases hplanned
    · rw [List.pairwise_iff_forall_sublist]
      intro u t hsub _ _
      obtain ⟨m, _, rfl⟩ := hadded t (hsub.subset (by simp))
      have hlisted := List.reverse_sublist.mp (by simpa using hsub : [m.mounted, u].reverse.Sublist _)
      have hnew' : (Plan.added s.plan new).Sublist new.mounts := by
        rw [Plan.added_eq]
        exact List.filter_sublist
      exact ⟨rfl, hlisted.trans ((List.filter_sublist.trans hnew').map Mount.mounted)⟩
    · intro u hu t _ hplanned
      rw [hback u hu] at hplanned
      cases hplanned
    · -- What stays is in the same order in both plans.
      apply (h.order.filter (Mounted.left s.plan new)).imp_of_mem
      intro u t hu ht horder hplanned hplace
      obtain ⟨htplanned, hlisted⟩ := horder hplanned hplace
      refine ⟨htplanned, ?_⟩
      have hcomp : Mounted.left s.plan new ∘ Mount.mounted = Plan.keeps s.plan new := rfl
      have hkept := hlisted.filter (Mounted.left s.plan new)
      rw [List.filter_cons_of_pos (List.mem_filter.mp ht).2, List.filter_cons_of_pos (List.mem_filter.mp hu).2,
        List.filter_nil, List.filter_map, hcomp, hnew.same] at hkept
      exact hkept.trans (List.filter_sublist.map Mount.mounted)
    · intro u hu t ht hplanned hplace
      obtain ⟨hold, hleft⟩ := List.mem_filter.mp ht
      rcases List.mem_append.mp hu with hu | hu
      · rw [hback u hu] at hplanned
        cases hplanned
      · obtain ⟨m, hm, rfl⟩ := hadded u hu
        exact absurd hplace (not_prefix_of_left hnew (Or.inr hm) (h.planned t hold) hleft)
  case again =>
    rw [hex.mounts]
    intro lm hlm
    rcases List.mem_append.mp hlm with hlm | hlm
    · exact h.again lm (List.mem_of_mem_filter hlm)
    · exact h.again lm (List.mem_of_mem_filter (hex.among.subset hlm))

theorem InOrder.step (hlossy : ∀ name, lossy (lossy name) = lossy name) (h : s.InOrder lossy) {a : Action}
    (hkeeps : s.KeepsOrder lossy a) : (s.step lossy a).InOrder lossy := by
  cases a with
  | appear p => exact h.of_same rfl rfl rfl
  | mount src dst mode ok =>
      change InOrder lossy ((s.mount lossy src dst mode ok).getD s)
      cases hmount : s.mount lossy src dst mode ok with
      | none => exact h
      | some s' => exact h.push hlossy (mount_pushed hmount) (mount_same hmount).1 hkeeps
  | umount dst ok =>
      change InOrder lossy ((s.umount dst ok).getD s)
      cases humount : s.umount dst ok with
      | none => exact h
      | some s' => exact h.pop humount hkeeps.1 hkeeps.2
  | expose path create made ok =>
      change InOrder lossy (s.expose lossy path create made ok).1
      obtain ⟨hplan, _, hsame | hpushed⟩ := expose_same_or_pushed lossy s path create made ok
      · exact h.of_same hplan hsame.1 hsame.2
      · obtain ⟨hunseen, file, hfile, hpushed⟩ := hpushed
        exact h.push hlossy hpushed hplan (hkeeps.2 hunseen file hfile)
  | reload new faults =>
      change InOrder lossy ((s.apply lossy new faults).getD s)
      cases happly : s.apply lossy new faults with
      | none => exact h
      | some s' =>
          rw [Option.getD_some]
          by_cases hrestart : (s.plan.diff new).restart = []
          · have hnew := hkeeps (by simp [happly]) hrestart
            have hdone := hnew.done
            change ((s.apply lossy new faults).getD s).unapplied = _ at hdone
            rw [happly, Option.getD_some] at hdone
            obtain ⟨back, hex⟩ := exchanged_apply happly hrestart hdone h.again
            exact h.exchange hex hnew hrestart
          · rw [apply_restart happly hrestart]
            exact h.of_same rfl rfl rfl

end Sup

/-! ## Section 5: Runs -/

/-- A share is another one after a reload, and what was mounted inside it is there again. -/
def dataExposed : List Action :=
  [.mount ["srv", "x"] ["data", "x"] .readWrite true,
    .expose ["srv", "one", "a"] false false true,
    .reload (dataShared "two") {},
    .expose ["srv", "two", "a"] false false true,
    .expose ["srv", "x", "b"] false false true,
    .expose ["home", "user", "c"] true true true,
    .umount ["data", "x"] true]

end Psbox.Sandbox
