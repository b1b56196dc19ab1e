import Mathlib.Data.List.Infix
import Psbox.Foundations.Runs
import Psbox.Sandbox.Supervisor

/-!
# Guards of Sources

`open_source` (`sys/mount.rs`) follows no symlink beneath the guard it is given, and
`Plan::source_guard` is the guard of a host path. Here is every host path that a supervisor opens as
the source of a mount (`prepare_plan_mount`, `live_tree`), with the plan that gives the guard and what
the sandbox can write at that time.
-/

namespace Psbox.Sandbox

open Psbox.Foundations

/-! ## Section 1: Opening a Source -/

/-- A host path that is opened as the source of a mount. -/
structure Opening where
  /-- The plan that gives the guard. -/
  plan : Plan
  path : Path
  /-- What the sandbox can write at that time. -/
  writable : List Path

/-- `open_source`: the paths at which a symlink is followed. -/
def followed (path : Path) (guard : Option Path) : List Path :=
  match guard with
  -- Symlinks are followed up to the guard, and none beneath it.
  | some g => if g <+: path ∧ g ≠ path then g.inits else path.inits
  | none => path.inits

namespace Opening

def guard (o : Opening) : Option Path :=
  o.plan.sourceGuard o.path

/-- Every writable place that strictly contains the path is at or beneath the guard. -/
def Guarded (o : Opening) : Prop :=
  ∀ w ∈ o.writable, w <+: o.path → w ≠ o.path → ∃ g ∈ o.guard, g <+: w

instance (o : Opening) : Decidable o.Guarded :=
  inferInstanceAs (Decidable (∀ w ∈ o.writable, w <+: o.path → w ≠ o.path → ∃ g ∈ o.guard, g <+: w))

/-- No symlink is followed inside a writable place that strictly contains the path. -/
def FollowsNoneInside (o : Opening) : Prop :=
  ∀ w ∈ o.writable, w <+: o.path → w ≠ o.path → ∀ q ∈ followed o.path o.guard, w <+: q → q = w

/-- Every writable place that strictly contains the path, and is not one of the plan's own, is at or
beneath a writable place of the plan, or the path's entry in the sandbox root, that does. -/
def Covered (o : Opening) : Prop :=
  ∀ w ∈ o.writable, w ∉ o.plan.mounts.filterMap Mount.writable → w <+: o.path → w ≠ o.path →
    ∃ g ∈ o.plan.guardsOf o.path, g <+: w

end Opening

/-! ## Section 2: The Guard of a Path -/

namespace Plan

/-- The shorter of two paths, the first if neither is. -/
def shorter (best : Option Path) (p : Path) : Option Path :=
  match best with
  | some b => if p.length < b.length then some p else some b
  | none => some p

private theorem shortest_eq (ps : List Path) : shortest ps = ps.foldl shorter none := rfl

private theorem exists_shorter (best : Option Path) (p : Path) :
    ∃ q, shorter best p = some q ∧ (best = some q ∨ q = p) ∧ q.length ≤ p.length ∧
      ∀ b ∈ best, q.length ≤ b.length := by
  unfold shorter
  cases best with
  | none => exact ⟨p, rfl, Or.inr rfl, le_rfl, by simp⟩
  | some b =>
      -- The new one counts only if it is shorter.
      by_cases hshorter : p.length < b.length
      · exact ⟨p, if_pos hshorter, Or.inr rfl, le_rfl, by simpa using hshorter.le⟩
      · exact ⟨b, if_neg hshorter, Or.inl rfl, Nat.le_of_not_lt hshorter, by simp⟩

/-- What is found from one path on is that path or a later one, and none of them is shorter. -/
theorem foldl_shorter {ps : List Path} {best : Option Path} {g : Path} (h : ps.foldl shorter best = some g) :
    (best = some g ∨ g ∈ ps) ∧ (∀ b ∈ best, g.length ≤ b.length) ∧ ∀ p ∈ ps, g.length ≤ p.length := by
  -- By induction over the paths, whatever was found before.
  induction ps generalizing best with
  | nil =>
      obtain rfl : best = some g := h
      simp
  | cons p ps ih =>
      obtain ⟨q, hq, hone, hp, hbest⟩ := exists_shorter best p
      rw [List.foldl_cons, hq] at h
      obtain ⟨hfrom, hleast, hrest⟩ := ih h
      have hgq : g.length ≤ q.length := hleast q rfl
      refine ⟨?_, fun b hb => hgq.trans (hbest b hb), List.forall_mem_cons.mpr ⟨hgq.trans hp, hrest⟩⟩
      -- What was found first is kept, or a later one takes its place.
      rcases hfrom with hsame | hmem
      · obtain rfl := Option.some.inj hsame
        rcases hone with hfirst | rfl
        · exact Or.inl hfirst
        · exact Or.inr List.mem_cons_self
      · exact Or.inr (List.mem_cons_of_mem p hmem)

private theorem foldl_shorter_some (ps : List Path) (b : Path) : (ps.foldl shorter (some b)).isSome := by
  induction ps generalizing b with
  | nil => rfl
  | cons p ps ih =>
      obtain ⟨q, hq, _⟩ := exists_shorter (some b) p
      rw [List.foldl_cons, hq]
      exact ih q

private theorem shortest_isSome {ps : List Path} {p : Path} (h : p ∈ ps) : (shortest ps).isSome := by
  cases ps with
  | nil => cases h
  | cons q ps =>
      rw [shortest_eq, List.foldl_cons]
      exact foldl_shorter_some ps q

private theorem mem_guardsOf {plan : Plan} {path g : Path} :
    g ∈ plan.guardsOf path ↔
      (g ∈ plan.mounts.filterMap Mount.writable ∨ plan.rootEntry path = some g) ∧ g <+: path ∧ path ≠ g := by
  unfold guardsOf
  rw [List.mem_filter, List.mem_append, Option.mem_toList, decide_eq_true_iff]

/-- The guard contains the path, and is at or above all else that guards it. -/
theorem sourceGuard_eq_some {plan : Plan} {path g : Path} (h : plan.sourceGuard path = some g) :
    g ∈ plan.guardsOf path ∧ ∀ g' ∈ plan.guardsOf path, g <+: g' := by
  obtain ⟨hfrom, _, hleast⟩ := foldl_shorter h
  have hmem : g ∈ plan.guardsOf path := by simpa using hfrom
  refine ⟨hmem, fun g' hg' => ?_⟩
  exact List.prefix_of_prefix_length_le (mem_guardsOf.mp hmem).2.1 (mem_guardsOf.mp hg').2.1 (hleast g' hg')

private theorem sourceGuard_isSome {plan : Plan} {path g : Path} (h : g ∈ plan.guardsOf path) :
    ∃ g', plan.sourceGuard path = some g' ∧ g' <+: g := by
  obtain ⟨g', hg'⟩ := Option.isSome_iff_exists.mp (shortest_isSome h)
  exact ⟨g', hg', (sourceGuard_eq_some hg').2 g h⟩

end Plan

namespace Opening

/-- A place is at or beneath the guard exactly when it is so for something that guards the path. -/
theorem exists_guard {o : Opening} {w : Path} :
    (∃ g ∈ o.guard, g <+: w) ↔ ∃ g ∈ o.plan.guardsOf o.path, g <+: w := by
  constructor
  · rintro ⟨g, hg, hw⟩
    exact ⟨g, (Plan.sourceGuard_eq_some hg).1, hw⟩
  · rintro ⟨g, hg, hw⟩
    obtain ⟨g', hg', habove⟩ := Plan.sourceGuard_isSome hg
    exact ⟨g', hg', habove.trans hw⟩

private theorem guarded_iff {o : Opening} : o.Guarded ↔ o.Covered := by
  unfold Guarded Covered
  apply forall₂_congr
  intro w _
  constructor
  · intro h _ hinside hne
    exact exists_guard.mp (h hinside hne)
  · intro h hinside hne
    -- The plan's own place, or one made writable by a live mount.
    by_cases hown : w ∈ o.plan.mounts.filterMap Mount.writable
    · -- A writable place of the plan guards what is in it.
      exact exists_guard.mpr
        ⟨w, Plan.mem_guardsOf.mpr ⟨Or.inl hown, hinside, Ne.symm hne⟩, List.prefix_refl w⟩
    · exact exists_guard.mpr (h hown hinside hne)

private theorem mem_followed_some {path g q : Path} (hg : g <+: path) (hne : g ≠ path) :
    q ∈ followed path (some g) ↔ q <+: g := by
  unfold followed
  dsimp only
  rw [if_pos ⟨hg, hne⟩, List.mem_inits]

/-- A guarded path is opened without following a symlink inside what the sandbox can write. -/
theorem guarded_iff_followsNoneInside {o : Opening} : o.Guarded ↔ o.FollowsNoneInside := by
  unfold Guarded FollowsNoneInside
  apply forall₄_congr
  intro w _ hinside hne
  -- Without a guard every symlink of the path is followed.
  cases hguard : o.guard with
  | none =>
      constructor
      · rintro ⟨g, hg, _⟩
        cases hg
      · intro h
        exact absurd (h o.path ((List.mem_inits _ _).mpr (List.prefix_refl _)) hinside) (Ne.symm hne)
  | some g =>
      obtain ⟨hmem, _⟩ := Plan.sourceGuard_eq_some hguard
      obtain ⟨_, hg, hgne⟩ := Plan.mem_guardsOf.mp hmem
      constructor
      · rintro ⟨g', hg', hw⟩ q hq hwq
        obtain rfl := Option.some.inj hg'
        have hqg := (mem_followed_some hg (Ne.symm hgne)).mp hq
        exact ((hqg.trans hw).eq_of_length_le hwq.length_le)
      · intro h
        refine ⟨g, rfl, ?_⟩
        -- The writable place is above the guard, or beneath it.
        rcases List.prefix_or_prefix_of_prefix hg hinside with hgw | hwg
        · exact hgw
        · have hsame := h g ((mem_followed_some hg (Ne.symm hgne)).mpr (List.prefix_refl g)) hwg
          exact hsame ▸ List.prefix_refl g

end Opening

/-! ## Section 3: What Is Opened -/

/-- The host path that a mount of a plan is made of. -/
def Mount.source : Mount → Option Path
  | .bind src _ _ _ => some src
  | .overlay lower _ _ => some lower
  | _ => none

/-- What building the root opens, in a sandbox that can write what its plan binds. -/
def Plan.buildOpens (plan : Plan) (upTo : Nat) : List Opening :=
  ((plan.mounts.filterMap Mount.source).take upTo).map fun path =>
    { plan := plan, path := path, writable := plan.mounts.filterMap Mount.writable }

namespace Sup

/-- A path is opened with the plan in place. -/
def opening (s : Sup) (path : Path) : Opening :=
  { plan := s.plan, path := path, writable := s.writableNow }

/-- What `mount` opens, after its checks. -/
def mountOpens (s : Sup) (src dst : Spelling) (mode : MountMode) : List Opening :=
  -- The checks of `mount`, in its order.
  if mode ≠ .readOnly ∧ mode ≠ .readWrite then []
  else if ".." ∈ src ∨ ".." ∈ dst then []
  else if dst.path = [] ∨ ["proc"] <+: dst.path ∨ ["dev"] <+: dst.path then []
  else [s.opening src.path]

/-- What `expose` opens, when the sandbox does not see the file yet. -/
def exposeOpens (s : Sup) (h : Spelling) (create made : Bool) : List Opening :=
  if create ∧ !s.host h.path ∧ !made then []
  else
    match s.visibleAt h, fileName h with
    | none, some file => s.mountOpens h (s.plan.runtimeDir ++ ["doc", toString (s.docs + 1), file]) .readWrite
    -- A file that is seen already is not opened.
    | _, _ => []

/-- What a reload opens for the mounts to attach, until one cannot be prepared. -/
def prepareOpens (s : Sup) (new : Plan) : List Mount → (Nat → Bool) → List Opening
  | [], _ => []
  | m :: ms, fault =>
      (m.source.map fun path => { plan := new, path := path, writable := s.writableNow }).toList ++
        -- What cannot be prepared ends the reload.
        if (prepareMount s.host m (fault 0)).isSome then prepareOpens s new ms fun i => fault (i + 1) else []

/-- What is opened to mount live mounts again. -/
def remountOpens (lossy : String → String) : List LiveMount → (Nat → Bool) → Sup → List Opening
  | [], _, _ => []
  | lm :: lms, fault, s =>
      s.mountOpens lm.host lm.place lm.mode ++
        remountOpens lossy lms (fun i => fault (i + 1)) ((s.mount lossy lm.host lm.place lm.mode !(fault 0)).getD s)

/-- With the new plan in place, before the live mounts are mounted again. -/
def swapped (s : Sup) (new : Plan) (prepared : List Mount) (faults : Faults) : Sup :=
  let change := s.plan.diff new
  { s with
    plan := new
    tree := (placeAll prepared faults.place (detachAll change.detach faults.detach s.tree).1).1
    mounts := s.mounts.filter fun lm => !Change.touches change lm }

/-- What `apply` opens. -/
def applyOpens (lossy : String → String) (s : Sup) (new : Plan) (faults : Faults) : List Opening :=
  let change := s.plan.diff new
  -- A reload that is refused opens nothing.
  if faults.rejected ∨ change.restart ≠ [] then []
  else
    s.prepareOpens new change.attach faults.prepare ++
      match prepareAll s.host change.attach faults.prepare with
      | some prepared =>
          remountOpens lossy (s.mounts.filter (Change.touches change)) faults.remount (s.swapped new prepared faults)
      | none => []

/-- `rebuild_within`, for the later mounts that are beneath an overlay: tmpfs and the like cannot be
rebuilt. What comes after them is given. -/
def rebuildOpens (dst : Path) (rest : List Path) : List Mount → List Path
  | [] => rest
  | m :: ms =>
      -- Only what is beneath the overlay is put together again.
      if m.dst ≠ dst ∧ dst <+: m.dst then
        match m with
        | .bind src _ _ _ => src :: rebuildOpens dst rest ms
        -- Such a mount cannot be put together again, so nothing more is opened.
        | .tmpfs _ _ | .overlay _ _ _ | .proc _ | .dev _ => []
        | .symlink _ _ | .dir _ | .file _ _ => rebuildOpens dst rest ms
      else rebuildOpens dst rest ms

/-- `refresh_overlay`, for an overlay between other mounts of the plan. -/
def overlayOpens (s : Sup) (lower dst : Path) (earlier later : List Mount) : List Path :=
  lower ::
    -- Something else is in the way of this overlay.
    if (earlier.any fun m => m.dst = dst) ∨ (later.any fun m => m.dst <+: dst) ∨
      (s.mounts.any fun lm => lm.place.path <+: dst) then []
    else
      rebuildOpens dst
        ((s.mounts.filter fun lm => lm.place.path ≠ dst ∧ dst <+: lm.place.path).map fun lm => lm.host.path) later

/-- `refresh`: each overlay opens what it needs until something fails. -/
def refreshOpens (s : Sup) (overlaps : Path → Bool) (upTo : Nat → Nat) : List Opening :=
  s.plan.mounts.zipIdx.flatMap fun x =>
    match x.1 with
    | .overlay lower dst _ =>
        if overlaps lower then
          ((s.overlayOpens lower dst (s.plan.mounts.take x.2) (s.plan.mounts.drop (x.2 + 1))).take
            (upTo x.2)).map s.opening
        else []
    | _ => []

end Sup

/-! ## Section 4: Runs -/

/-- All that opens sources in a running sandbox. What refreshing and re-attaching leave mounted is
given. -/
inductive Deed where
  | act (a : Action)
  /-- A task has written to what some overlays are made of. -/
  | refresh (overlaps : Path → Bool) (upTo : Nat → Nat) (left : Tree)
  /-- A host socket that is forwarded was made again. -/
  | reattach (m : Mount) (left : Tree)

namespace Sup

def deed (lossy : String → String) (s : Sup) : Deed → Option Sup
  | .act a => some (s.step lossy a)
  | .refresh _ _ left | .reattach _ left => some { s with tree := left }

def opens (lossy : String → String) (s : Sup) : Deed → List Opening
  | .act (.mount src dst mode _) => s.mountOpens src dst mode
  | .act (.expose h create made _) => s.exposeOpens h create made
  | .act (.reload new faults) => s.applyOpens lossy new faults
  | .act (.appear _) | .act (.umount _ _) => []
  | .refresh overlaps upTo _ => s.refreshOpens overlaps upTo
  | .reattach (.bind src _ _ _) _ => [s.opening src]
  | .reattach _ _ => []

/-- With the plan in place only the writable live mounts are in question. -/
theorem covered_opening {s : Sup} {path : Path} :
    (s.opening path).Covered ↔ ∀ w ∈ liveWritable s.mounts, w ∉ s.plan.mounts.filterMap Mount.writable →
      w <+: path → w ≠ path → ∃ g ∈ s.plan.guardsOf path, g <+: w := by
  constructor
  · intro h w hw
    exact h w (List.mem_append_right _ hw)
  · intro h w hw hother
    -- The place is the plan's own, or a live mount's.
    rcases List.mem_append.mp hw with hown | hlive
    · exact absurd hown hother
    · exact h w hlive hother

end Sup

/-- A directory is mounted for writing, and then one inside it. -/
def nestedShares : List Deed :=
  [.act (.mount ["srv", "shared"] ["mnt", "shared"] .readWrite true),
    .act (.mount ["srv", "shared", "a", "b"] ["mnt", "b"] .readOnly true)]

end Psbox.Sandbox
