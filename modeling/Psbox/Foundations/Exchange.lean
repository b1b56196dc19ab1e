import Psbox.Foundations.MountTree

/-!
# Exchanging Mounts

Some mounts of a tree are to go, others are to come, and the rest stays. What goes is detached, one path
after the other, and then the others are attached. A path only names what is seen there, so the order of
the paths, and what covers what, decide whether the right mounts go.

Section 2 follows the mounts that go and can still be seen (`loose`). With none left, the tree shows what
stays (`top_detachEach`). Section 3 compares the outcome with a tree that was built afresh
(`top_exchange_iff`). In Section 4 nothing covers anything: then what is seen does not depend on the order
of the mounts, nor what is left on the order of the paths. Section 5 is about a mount that is replaced by a
whole tree, which is slipped beneath it before it goes.
-/

namespace Psbox.Foundations

namespace MountTree

variable {κ α : Type*} [DecidableEq κ]

/-! ## Section 1: One Path after the Other -/

/-- Detaches what is seen at the paths. A path where nothing is mounted right there is passed over. -/
def detachEach : List (List κ) → MountTree κ α → MountTree κ α
  | [], T => T
  | p :: ps, T => detachEach ps ((T.detach p).getD T)

theorem detachEach_sublist (ps : List (List κ)) (T : MountTree κ α) : (detachEach ps T).Sublist T := by
  -- Path by path.
  induction ps generalizing T with
  | nil => exact List.Sublist.refl T
  | cons p ps ih =>
      apply (ih _).trans
      cases hdetach : T.detach p with
      | none => exact List.Sublist.refl T
      | some T' => exact detach_sublist hdetach

/-- What is neither at the path nor beneath it stays. -/
theorem filter_detach {stays : Mounted κ α → Bool} {T : MountTree κ α} {p : List κ}
    (h : ∀ u ∈ T, stays u = true → ¬p <+: u.place) :
    ((T.detach p).getD T).filter stays = T.filter stays := by
  cases hdetach : T.detach p with
  | none => rfl
  | some T' =>
      obtain ⟨newer, t, older, hT, ht, _, hT'⟩ := detach_eq_some.mp hdetach
      have hgoes : stays t = false := by
        by_contra hstays
        exact h t (by simp [hT]) (by simpa using hstays) (ht ▸ List.prefix_refl _)
      -- What goes along is none of those that stay.
      have hnewer : (newer.filter fun u => decide ¬p <+: u.place).filter stays = newer.filter stays := by
        rw [List.filter_filter]
        apply List.filter_congr
        intro u hu
        cases hstays : stays u with
        | false => simp
        | true => simpa using h u (by simp [hT, hu]) hstays
      rw [Option.getD_some, hT, hT', List.filter_append, List.filter_append, hnewer,
        List.filter_cons_of_neg (by simp [hgoes])]

theorem filter_detachEach {stays : Mounted κ α → Bool} {ps : List (List κ)} {T : MountTree κ α}
    (h : ∀ p ∈ ps, ∀ u ∈ T, stays u = true → ¬p <+: u.place) :
    (detachEach ps T).filter stays = T.filter stays := by
  -- Path by path; the tree that is left is a part of the first one.
  induction ps generalizing T with
  | nil => rfl
  | cons p ps ih =>
      have hsub : ((T.detach p).getD T).Sublist T := detachEach_sublist [p] T
      rw [detachEach, ih fun r hr u hu => h r (List.mem_cons_of_mem p hr) u (hsub.subset hu)]
      exact filter_detach (h p List.mem_cons_self)

/-- No newer mount is at or above the place of a mount: it is what is seen there. -/
def OnTop (T : MountTree κ α) (t : Mounted κ α) : Prop :=
  T.Pairwise fun u v => v = t → ¬u.place <+: t.place

instance [DecidableEq α] (T : MountTree κ α) (t : Mounted κ α) : Decidable (T.OnTop t) :=
  inferInstanceAs (Decidable (List.Pairwise _ T))

/-- A mount that is on top when the paths are detached goes, and with it what was mounted on it. -/
theorem notMem_detachEach {ps : List (List κ)} {T : MountTree κ α} {t u : Mounted κ α} (htop : T.OnTop t)
    (hnewer : T.Pairwise fun v w => v = t → w ≠ u) (hp : t.place ∈ ps) (hbeneath : t.place <+: u.place)
    (hboth : u ∈ T → t ∈ T) : u ∉ detachEach ps T := by
  -- Path by path, until it is the turn of this mount.
  induction ps generalizing T with
  | nil => cases hp
  | cons p ps ih =>
      rw [detachEach]
      have hsub : ((T.detach p).getD T).Sublist T := detachEach_sublist [p] T
      by_cases hturn : p = t.place
      · -- It is its turn.
        intro hu
        have hleft := (detachEach_sublist ps _).subset hu
        obtain ⟨newer, older, hT⟩ := List.append_of_mem (hboth (hsub.subset hleft))
        unfold OnTop at htop
        rw [hT, List.pairwise_append] at htop hnewer
        have hnone : ∀ v ∈ newer, ¬v.place <+: p := by
          intro v hv
          rw [hturn]
          exact htop.2.2 v hv t List.mem_cons_self rfl
        rw [detach_eq_some.mpr ⟨newer, t, older, hT, hturn.symm, hnone, rfl⟩, Option.getD_some] at hleft
        rcases List.mem_append.mp hleft with hleft | hleft
        · simpa [hturn, hbeneath] using (List.mem_filter.mp hleft).2
        · exact (List.pairwise_cons.mp hnewer.2.1).1 u hleft rfl rfl
      · have hlater : t.place ∈ ps := (List.mem_cons.mp hp).resolve_left fun heq => hturn heq.symm
        refine ih (htop.sublist hsub) (hnewer.sublist hsub) hlater fun hu => ?_
        -- Before its turn it stays, or goes along with another one.
        have ht := hboth (hsub.subset hu)
        cases hdetach : T.detach p with
        | none => exact ht
        | some T' =>
            obtain ⟨newer, v, older, hT, hv, _, rfl⟩ := detach_eq_some.mp hdetach
            rw [hdetach, Option.getD_some] at hu
            rw [Option.getD_some]
            rw [hT] at ht hnewer
            rcases List.mem_append.mp ht with ht | ht
            · by_cases hpt : p <+: t.place
              · -- It goes beneath another one, and so would the other.
                rcases List.mem_append.mp hu with hu | hu
                · exact absurd (hpt.trans hbeneath) (by simpa using (List.mem_filter.mp hu).2)
                · exact absurd rfl ((List.pairwise_append.mp hnewer).2.2 t ht u (List.mem_cons_of_mem v hu) rfl)
              · exact List.mem_append_left _ (List.mem_filter.mpr ⟨ht, by simpa using hpt⟩)
            rcases List.mem_cons.mp ht with rfl | ht
            · exact absurd hv.symm hturn
            · exact List.mem_append_right _ ht

/-! ## Section 2: What Can Still Be Seen of What Goes -/

/-- The places of the mounts that go, but for those beneath the place of a newer one that stays. `above`
are the places of what stays and is newer than the tree. -/
def loose (stays : Mounted κ α → Bool) : List (List κ) → MountTree κ α → List (List κ)
  | _, [] => []
  | above, t :: T =>
      if stays t then loose stays (t.place :: above) T
      else if ∃ k ∈ above, k <+: t.place then loose stays above T
      else t.place :: loose stays above T

variable {stays : Mounted κ α → Bool}

theorem not_above_of_loose {above : List (List κ)} {T : MountTree κ α} :
    ∀ r ∈ loose stays above T, ∀ k ∈ above, ¬k <+: r := by
  -- Along the tree; what covers grows as the mounts that stay are passed.
  induction T generalizing above with
  | nil => simp [loose]
  | cons t T ih =>
      intro r hr k hk
      rw [loose] at hr
      split at hr
      · exact ih r hr k (List.mem_cons_of_mem _ hk)
      split at hr
      · exact ih r hr k hk
      · rename_i hnone
        rcases List.mem_cons.mp hr with rfl | hr
        · exact fun hprefixed => hnone ⟨k, hk, hprefixed⟩
        · exact ih r hr k hk

theorem loose_sublist (above : List (List κ)) (T : MountTree κ α) :
    (loose stays above T).Sublist ((T.filter fun t => !stays t).map Mounted.place) := by
  -- Along the tree.
  induction T generalizing above with
  | nil => simp [loose]
  | cons t T ih =>
      rw [loose]
      split
      · rename_i hstays
        rw [List.filter_cons_of_neg (by simp [hstays])]
        exact ih _
      · rename_i hgoes
        rw [List.filter_cons_of_pos (by simp [hgoes]), List.map_cons]
        split
        · exact (ih _).cons _
        · exact (ih _).cons_cons _

/-- With nothing loose, the tree shows what stays. -/
theorem top_of_loose {above : List (List κ)} {T : MountTree κ α} (h : loose stays above T = [])
    {q : List κ} (hq : ∀ k ∈ above, ¬k <+: q) : T.top q = top (T.filter stays) q := by
  -- Along the tree, from the newest mount on.
  induction T generalizing above with
  | nil => rfl
  | cons t T ih =>
      rw [loose] at h
      split at h
      · rename_i hstays
        rw [List.filter_cons_of_pos hstays]
        -- The mount that stays is at or above the path, or it does not matter.
        by_cases ht : t.place <+: q
        · simp [top, ht]
        · have hrest := ih h (List.forall_mem_cons.mpr ⟨ht, hq⟩)
          simpa [top, ht] using hrest
      · rename_i hgoes
        split at h
        · rename_i hcovered
          obtain ⟨k, hk, hprefixed⟩ := hcovered
          -- What covers it is not at or above `q`, so it is not either.
          have ht : ¬t.place <+: q := fun hplace => hq k hk (hprefixed.trans hplace)
          have hrest := ih h hq
          rw [List.filter_cons_of_neg hgoes]
          simpa [top, ht] using hrest
        · cases h

/-- Detaching at the next of the paths: the paths after it will do for the rest. -/
theorem loose_detach {above : List (List κ)} {T : MountTree κ α} {p : List κ} {ps : List (List κ)}
    (habove : ∀ k ∈ above, ¬k <+: p) (hstay : ∀ u ∈ T, stays u = true → ¬p <+: u.place)
    (h : (loose stays above T).Sublist (p :: ps)) :
    (loose stays above ((T.detach p).getD T)).Sublist ps := by
  -- Along the tree; the path detaches here, is covered here, or passes.
  induction T generalizing above ps with
  | nil => simp [detach, loose]
  | cons t T ih =>
      have hstayT : ∀ u ∈ T, stays u = true → ¬p <+: u.place := fun u hu => hstay u (List.mem_cons_of_mem t hu)
      rw [detach]
      split
      · -- The mount itself goes.
        rename_i hplace
        have hgoes : ¬stays t = true := fun hstays =>
          hstay t List.mem_cons_self hstays (hplace ▸ List.prefix_refl _)
        have hnone : ¬∃ k ∈ above, k <+: t.place := by
          rintro ⟨k, hk, hprefixed⟩
          exact habove k hk (hplace ▸ hprefixed)
        rw [loose, if_neg hgoes, if_neg hnone, hplace] at h
        exact List.cons_sublist_cons.mp h
      split
      · -- Nothing is detached: the path is covered.
        rename_i hplace hover
        rw [Option.getD_none]
        by_cases hstays : stays t = true
        · rw [loose, if_pos hstays] at h ⊢
          apply (List.sublist_cons_iff.mp h).resolve_right
          rintro ⟨rs, heq, _⟩
          have hmem : p ∈ loose stays (t.place :: above) T := by simp [heq]
          exact not_above_of_loose p hmem t.place List.mem_cons_self hover
        · have hnone : ¬∃ k ∈ above, k <+: t.place := by
            rintro ⟨k, hk, hprefixed⟩
            exact habove k hk (hprefixed.trans hover)
          rw [loose, if_neg hstays, if_neg hnone] at h ⊢
          exact h.of_cons_of_ne hplace
      split
      · -- The mount is beneath the path and goes along, if anything goes.
        rename_i hplace _ hbeneath
        have hgoes : ¬stays t = true := fun hstays => hstay t List.mem_cons_self hstays hbeneath
        rw [loose, if_neg hgoes] at h
        split at h
        · rename_i hcovered
          have hrest := ih habove hstayT h
          cases hdetach : detach p T with
          | none =>
              rw [hdetach] at hrest
              rw [Option.getD_none, loose, if_neg hgoes, if_pos hcovered]
              exact hrest
          | some T' =>
              rw [hdetach] at hrest
              exact hrest
        · rename_i hnone
          have hsub := h.of_cons_of_ne hplace
          cases hdetach : detach p T with
          | none =>
              rw [Option.getD_none, loose, if_neg hgoes, if_neg hnone]
              exact hsub
          | some T' =>
              have hrest := ih habove hstayT (((List.sublist_cons_self _ _).trans hsub).cons p)
              rw [hdetach] at hrest
              exact hrest
      · -- The mount is elsewhere.
        rename_i hplace hover hbeneath
        have hcons : ((detach p T).map (t :: ·)).getD (t :: T) = t :: (detach p T).getD T := by
          cases detach p T <;> rfl
        rw [hcons]
        by_cases hstays : stays t = true
        · rw [loose, if_pos hstays] at h ⊢
          exact ih (List.forall_mem_cons.mpr ⟨hover, habove⟩) hstayT h
        by_cases hcovered : ∃ k ∈ above, k <+: t.place
        · rw [loose, if_neg hstays, if_pos hcovered] at h ⊢
          exact ih habove hstayT h
        · rw [loose, if_neg hstays, if_neg hcovered] at h ⊢
          -- Its place is among the later paths, and the rest comes after that.
          obtain ⟨before, after, rfl, hbefore, hafter⟩ := List.cons_sublist_iff.mp (h.of_cons_of_ne hplace)
          have hrest := ih habove hstayT (hafter.cons p)
          exact List.Sublist.append (List.singleton_sublist.mpr hbefore) hrest

/-- The paths of what is loose, in its order and among others, leave nothing loose. -/
theorem loose_detachEach {ps : List (List κ)} {T : MountTree κ α}
    (hstay : ∀ p ∈ ps, ∀ u ∈ T, stays u = true → ¬p <+: u.place)
    (h : (loose stays [] T).Sublist ps) : loose stays [] (detachEach ps T) = [] := by
  -- Path by path, each for the next mount that is loose.
  induction ps generalizing T with
  | nil => exact List.sublist_nil.mp h
  | cons p ps ih =>
      have hsub := detachEach_sublist [p] T
      apply ih
      · exact fun r hr u hu => hstay r (List.mem_cons_of_mem p hr) u (hsub.subset hu)
      · exact loose_detach (by simp) (hstay p List.mem_cons_self) h

/-- When the paths are those of what goes, the newest first, and nothing that stays is at or beneath one
of them, the tree shows what stays. -/
theorem top_detachEach {ps : List (List κ)} {T : MountTree κ α}
    (hstay : ∀ p ∈ ps, ∀ u ∈ T, stays u = true → ¬p <+: u.place)
    (h : ((T.filter fun t => !stays t).map Mounted.place).Sublist ps) (q : List κ) :
    (detachEach ps T).top q = top (T.filter stays) q := by
  rw [top_of_loose (loose_detachEach hstay ((loose_sublist [] T).trans h)) (by simp),
    filter_detachEach hstay]

/-! ## Section 3: Against a Tree Built Afresh -/

theorem top_filter_of_stays {T : MountTree κ α} {q : List κ} {t : Mounted κ α} (htop : T.top q = some t)
    {keep : Mounted κ α → Bool} (hkeep : keep t = true) : top (T.filter keep) q = some t := by
  obtain ⟨newer, older, rfl, hplace, hnewer⟩ := top_eq_some.mp htop
  apply top_eq_some.mpr
  refine ⟨newer.filter keep, older.filter keep, ?_, hplace, fun u hu => hnewer u (List.mem_of_mem_filter hu)⟩
  rw [List.filter_append, List.filter_cons_of_pos hkeep]

/-- A tree where some mounts came last shows the same as the tree where they came in their turn, exactly
when the latter shows each of them, or another of them, at its place. Nothing that stays is at or beneath
the place of one that comes. -/
theorem top_exchange_iff (stays : Mounted κ α → Bool) {T : MountTree κ α}
    (h : ∀ a ∈ T, stays a = false → ∀ u ∈ T, stays u = true → ¬a.place <+: u.place) :
    (∀ q, top (T.filter (fun t => !stays t) ++ T.filter stays) q = T.top q) ↔
      ∀ a ∈ T, stays a = false → ∃ b, T.top a.place = some b ∧ stays b = false := by
  constructor
  · intro hsame a ha hcomes
    have hmem : a ∈ T.filter fun t => !stays t := List.mem_filter.mpr ⟨ha, by simp [hcomes]⟩
    -- It is seen at its own place among those that come.
    have hsome : (top (T.filter fun t => !stays t) a.place).isSome := by
      rw [Option.isSome_iff_ne_none]
      intro hnone
      exact top_eq_none.mp hnone a hmem (List.prefix_refl _)
    obtain ⟨b, hb⟩ := Option.isSome_iff_exists.mp hsome
    have hbcomes := (List.mem_filter.mp (mem_of_top hb).1).2
    refine ⟨b, ?_, by simpa using hbcomes⟩
    rw [← hsame, top_append, hb, Option.some_or]
  · intro hseen q
    rw [top_append]
    -- With nothing mounted above the path nothing is seen either way.
    cases htop : T.top q with
    | none =>
        have hnone := top_eq_none.mp htop
        have hfilter : ∀ keep : Mounted κ α → Bool, top (T.filter keep) q = none := fun keep =>
          top_eq_none.mpr fun t ht => hnone t (List.mem_of_mem_filter ht)
        rw [hfilter, hfilter, Option.none_or]
    | some t =>
        obtain ⟨ht, hplace⟩ := mem_of_top htop
        cases hstays : stays t with
        | false =>
            rw [top_filter_of_stays htop (by simp [hstays]), Option.some_or]
        | true =>
            -- None of those that come is at or above `q`: it would be seen at its own place, and `t` is not.
            have hnone : top (T.filter fun t => !stays t) q = none := by
              apply top_eq_none.mpr
              intro a ha hprefixed
              obtain ⟨haT, hcomes⟩ := List.mem_filter.mp ha
              have hcomes : stays a = false := by simpa using hcomes
              obtain ⟨b, hb, hbcomes⟩ := hseen a haT hcomes
              have habove : t.place <+: a.place :=
                (List.prefix_or_prefix_of_prefix hplace hprefixed).resolve_right (h a haT hcomes t ht hstays)
              obtain ⟨newer, older, hT, _, hnewer⟩ := top_eq_some.mp htop
              have htop' : T.top a.place = some t :=
                top_eq_some.mpr ⟨newer, older, hT, habove, fun u hu hu' => hnewer u hu (hu'.trans hprefixed)⟩
              rw [htop'] at hb
              obtain rfl := Option.some.inj hb
              rw [hstays] at hbcomes
              cases hbcomes
            rw [hnone, Option.none_or, top_filter_of_stays htop hstays]

/-! ## Section 4: Where Nothing is Covered -/

/-- No mount is at or above the place of an older one. -/
def Uncovered (T : MountTree κ α) : Prop :=
  T.Pairwise fun u t => ¬u.place <+: t.place

instance (T : MountTree κ α) : Decidable (Uncovered T) :=
  inferInstanceAs (Decidable (List.Pairwise _ T))

variable {T T' : MountTree κ α}

omit [DecidableEq κ] in
theorem Uncovered.sublist (h : Uncovered T) (hsub : T'.Sublist T) : Uncovered T' :=
  List.Pairwise.sublist hsub h

omit [DecidableEq κ] in
theorem uncovered_attach {p : List κ} {a : α} :
    Uncovered (T.attach p a) ↔ (∀ t ∈ T, ¬p <+: t.place) ∧ Uncovered T :=
  List.pairwise_cons

omit [DecidableEq κ] in
/-- Each place is that of one mount. -/
theorem Uncovered.eq_of_place (h : Uncovered T) {t u : Mounted κ α} (ht : t ∈ T) (hu : u ∈ T)
    (hplace : t.place = u.place) : t = u := by
  obtain ⟨newer, older, rfl⟩ := List.append_of_mem ht
  obtain ⟨_, hpair, hcross⟩ := List.pairwise_append.mp h
  rcases List.mem_append.mp hu with hu | hu
  · exact absurd (hplace ▸ List.prefix_refl _) (hcross u hu t List.mem_cons_self)
  rcases List.mem_cons.mp hu with rfl | hu
  · rfl
  · exact absurd (hplace ▸ List.prefix_refl _) ((List.pairwise_cons.mp hpair).1 u hu)

omit [DecidableEq κ] in
theorem Uncovered.nodup (h : Uncovered T) : T.Nodup := by
  apply List.Pairwise.imp _ h
  intro u t hcover hsame
  exact hcover (hsame ▸ List.prefix_refl _)

/-- What is seen at a path is the mount whose place is the deepest at or above it. -/
theorem Uncovered.top_eq_some (h : Uncovered T) {q : List κ} {t : Mounted κ α} :
    T.top q = some t ↔ t ∈ T ∧ t.place <+: q ∧ ∀ u ∈ T, u.place <+: q → u.place <+: t.place := by
  constructor
  · intro htop
    obtain ⟨newer, older, rfl, hplace, hnewer⟩ := MountTree.top_eq_some.mp htop
    refine ⟨by simp, hplace, fun u hu huq => ?_⟩
    -- What is newer is not beneath, and what is older not above it.
    rcases List.mem_append.mp hu with hu | hu
    · exact absurd huq (hnewer u hu)
    rcases List.mem_cons.mp hu with rfl | hu
    · exact List.prefix_refl _
    · -- An older one is not beneath it.
      have hpair := (List.pairwise_append.mp h).2.1
      have hcover := (List.pairwise_cons.mp hpair).1 u hu
      exact (List.prefix_or_prefix_of_prefix huq hplace).resolve_right hcover
  · rintro ⟨ht, hplace, hdeepest⟩
    obtain ⟨newer, older, rfl⟩ := List.append_of_mem ht
    refine MountTree.top_eq_some.mpr ⟨newer, older, rfl, hplace, fun u hu huq => ?_⟩
    have hcover := (List.pairwise_append.mp h).2.2 u hu t List.mem_cons_self
    exact hcover (hdeepest u (by simp [hu]) huq)

/-- The order of the mounts does not matter. -/
theorem Uncovered.top_perm (h : Uncovered T) (h' : Uncovered T') (hperm : T.Perm T') (q : List κ) :
    T.top q = T'.top q := by
  ext t
  rw [h.top_eq_some, h'.top_eq_some]
  simp only [hperm.mem_iff]

/-- A mount is detached by its path, with all beneath it. -/
theorem Uncovered.detach (h : Uncovered T) {t : Mounted κ α} (ht : t ∈ T) :
    T.detach t.place = some (T.filter fun u => ¬t.place <+: u.place) := by
  have htop : T.top t.place = some t := by
    apply h.top_eq_some.mpr
    exact ⟨ht, List.prefix_refl _, fun _ _ hu => hu⟩
  obtain ⟨newer, older, rfl, _, hnewer⟩ := MountTree.top_eq_some.mp htop
  -- An older one beneath it would be covered.
  have holder : older.filter (fun u => ¬t.place <+: u.place) = older := by
    apply List.filter_eq_self.mpr
    intro u hu
    have hpair := (List.pairwise_append.mp h).2.1
    simpa using (List.pairwise_cons.mp hpair).1 u hu
  apply detach_eq_some.mpr
  refine ⟨newer, t, older, rfl, rfl, hnewer, ?_⟩
  rw [List.filter_append, List.filter_cons_of_neg (by simp), holder]

/-- When there is nothing beneath it, nothing else goes. -/
theorem Uncovered.mem_detach (h : Uncovered T) {t : Mounted κ α} (ht : t ∈ T) (hdetach : T.detach t.place = some T')
    (hleaf : ∀ u ∈ T, t.place <+: u.place → u.place = t.place) {u : Mounted κ α} : u ∈ T' ↔ u ∈ T ∧ u ≠ t := by
  obtain rfl := Option.some.inj ((h.detach ht).symm.trans hdetach)
  rw [List.mem_filter]
  apply and_congr_right
  intro hu
  rw [decide_eq_true_iff]
  constructor
  · intro hnot heq
    exact hnot (heq ▸ List.prefix_refl _)
  · intro hne hprefixed
    exact hne (h.eq_of_place hu ht (hleaf u hu hprefixed))

/-- Nothing is detached at a path that is no mount's place. -/
theorem detach_eq_none {p : List κ} (h : ∀ t ∈ T, t.place ≠ p) : T.detach p = none := by
  rw [← Option.not_isSome_iff_eq_none, detach_isSome]
  rintro ⟨t, htop, hplace⟩
  exact h t (mem_of_top htop).1 hplace

/-- Detached at some paths, in any order: what is at or beneath one of them that is a mount's place goes. -/
theorem Uncovered.detachEach (h : Uncovered T) (ps : List (List κ)) :
    detachEach ps T = T.filter fun u => ∀ p ∈ ps, (∃ t ∈ T, t.place = p) → ¬p <+: u.place := by
  -- Path by path; the tree stays uncovered.
  induction ps generalizing T with
  | nil => simp [MountTree.detachEach]
  | cons p ps ih =>
      rw [MountTree.detachEach]
      -- The path is a mount's place, or nothing happens.
      by_cases hp : ∃ t ∈ T, t.place = p
      · obtain ⟨t, ht, rfl⟩ := hp
        rw [h.detach ht, Option.getD_some, ih (h.sublist List.filter_sublist), List.filter_filter]
        apply List.filter_congr
        intro u _
        rw [← Bool.decide_and]
        apply decide_eq_decide.mpr
        constructor
        · rintro ⟨hlater, hself⟩
          rw [List.forall_mem_cons]
          refine ⟨fun _ => by simpa using hself, fun r hr => ?_⟩
          rintro ⟨v, hv, rfl⟩ hprefixed
          -- A mount that went along before was beneath the first path, and so is what is beneath it.
          by_cases hgone : t.place <+: v.place
          · exact absurd (hgone.trans hprefixed) (by simpa using hself)
          · exact hlater _ hr ⟨v, List.mem_filter.mpr ⟨hv, by simpa using hgone⟩, rfl⟩ hprefixed
        · intro hall
          rw [List.forall_mem_cons] at hall
          obtain ⟨hself, hlater⟩ := hall
          refine ⟨fun r hr hv => ?_, by simpa using hself ⟨t, ht, rfl⟩⟩
          obtain ⟨v, hv, hplace⟩ := hv
          exact hlater r hr ⟨v, List.mem_of_mem_filter hv, hplace⟩
      · have hnone : ∀ t ∈ T, t.place ≠ p := fun t ht hplace => hp ⟨t, ht, hplace⟩
        rw [detach_eq_none hnone, Option.getD_none, ih h]
        apply List.filter_congr
        intro u _
        apply decide_eq_decide.mpr
        rw [List.forall_mem_cons]
        exact ⟨fun hall => ⟨fun hsome => absurd hsome hp, hall⟩, And.right⟩

/-! ## Section 5: Replacing a Mount -/

/-- Attaches a tree beneath the mount seen at a path. There is no result when none is mounted right
there. -/
def slip (fresh : MountTree κ α) (p : List κ) : MountTree κ α → Option (MountTree κ α)
  | [] => none
  | t :: T =>
      if t.place = p then some (t :: (fresh ++ T))
      else if t.place <+: p then none
      else (slip fresh p T).map (t :: ·)

variable {fresh : MountTree κ α} {p : List κ}

theorem slip_eq_some : slip fresh p T = some T' ↔
    ∃ newer t older, T = newer ++ t :: older ∧ t.place = p ∧ (∀ u ∈ newer, ¬u.place <+: p) ∧
      T' = newer ++ t :: (fresh ++ older) := by
  -- Along the tree, from the newest mount on.
  induction T generalizing T' with
  | nil => simp [slip]
  | cons u T ih =>
      rw [slip]
      constructor
      · intro h
        split at h
        · rename_i hplace
          obtain rfl := Option.some.inj h
          exact ⟨[], u, T, rfl, hplace, by simp, rfl⟩
        split at h
        · cases h
        · rename_i _ habove
          obtain ⟨T'', hrest, rfl⟩ := Option.map_eq_some_iff.mp h
          obtain ⟨newer, t, older, rfl, ht, hnewer, rfl⟩ := ih.mp hrest
          exact ⟨u :: newer, t, older, rfl, ht, List.forall_mem_cons.mpr ⟨habove, hnewer⟩, rfl⟩
      · rintro ⟨newer, t, older, hT, ht, hnewer, rfl⟩
        cases newer with
        | nil =>
            obtain ⟨rfl, rfl⟩ := List.cons.inj hT
            rw [if_pos ht]
            rfl
        | cons v newer =>
            obtain ⟨rfl, rfl⟩ := List.cons.inj hT
            obtain ⟨habove, hnewer⟩ := List.forall_mem_cons.mp hnewer
            -- What is newer neither is the place nor covers it.
            have hplace : u.place ≠ p := fun h => habove (h ▸ List.prefix_refl _)
            rw [if_neg hplace, if_neg habove,
              ih.mpr ⟨newer, t, older, rfl, ht, hnewer, rfl⟩]
            rfl

/-- What is slipped beneath a mount, at its place or further down, is not seen. -/
theorem top_slip (hfresh : ∀ u ∈ fresh, p <+: u.place) (h : slip fresh p T = some T') (q : List κ) :
    T'.top q = T.top q := by
  obtain ⟨newer, t, older, rfl, ht, _, rfl⟩ := slip_eq_some.mp h
  rw [top_append, top_append]
  congr 1
  by_cases hq : t.place <+: q
  · simp [top, hq]
  · have hnone : top fresh q = none := by
      apply top_eq_none.mpr
      intro u hu huq
      exact hq (ht ▸ (hfresh u hu).trans huq)
    have hrest := top_append fresh older q
    rw [hnone, Option.none_or] at hrest
    simpa [top, hq] using hrest

/-- When the mount goes, with all beneath it, the tree is what takes its place. -/
theorem detach_slip (h : slip fresh p T = some T') :
    ∃ left older, T.detach p = some (left ++ older) ∧ T'.detach p = some (left ++ (fresh ++ older)) ∧
      ∀ u ∈ left, ¬u.place <+: p ∧ ¬p <+: u.place := by
  obtain ⟨newer, t, older, rfl, ht, hnewer, rfl⟩ := slip_eq_some.mp h
  refine ⟨newer.filter fun u => ¬p <+: u.place, older, ?_, ?_, ?_⟩
  · exact detach_eq_some.mpr ⟨newer, t, older, rfl, ht, hnewer, rfl⟩
  · exact detach_eq_some.mpr ⟨newer, t, fresh ++ older, rfl, ht, hnewer, rfl⟩
  · intro u hu
    obtain ⟨hmem, hbeneath⟩ := List.mem_filter.mp hu
    exact ⟨hnewer u hmem, by simpa using hbeneath⟩

/-- At the path and beneath it the tree is seen that has taken the mount's place, elsewhere what was seen
before. -/
theorem top_replaced {T'' : MountTree κ α} (hroot : ∃ u ∈ fresh, u.place = p) (hfresh : ∀ u ∈ fresh, p <+: u.place)
    (h : slip fresh p T = some T') (hdetach : T'.detach p = some T'') (q : List κ) :
    T''.top q = if p <+: q then fresh.top q else T.top q := by
  obtain ⟨left, older, _, hdetach', hleft⟩ := detach_slip h
  obtain rfl := Option.some.inj (hdetach.symm.trans hdetach')
  split
  · rename_i hq
    have hnone : top left q = none := by
      apply top_eq_none.mpr
      intro u hu huq
      rcases List.prefix_or_prefix_of_prefix huq hq with hup | hpu
      · exact (hleft u hu).1 hup
      · exact (hleft u hu).2 hpu
    obtain ⟨u, hu, hplace⟩ := hroot
    have hsome : (top fresh q).isSome := by
      rw [Option.isSome_iff_ne_none]
      intro hnone
      exact top_eq_none.mp hnone u hu (hplace ▸ hq)
    obtain ⟨t, ht⟩ := Option.isSome_iff_exists.mp hsome
    rw [top_append, top_append, hnone, ht, Option.none_or, Option.some_or]
  · rename_i hq
    rw [top_detach hdetach hq, top_slip hfresh h]

/-- Where nothing was covered, what is mounted is the tree and what was not beneath the mount. -/
theorem Uncovered.mem_replaced (hT : Uncovered T) {T'' : MountTree κ α} (h : slip fresh p T = some T')
    (hdetach : T'.detach p = some T'') {u : Mounted κ α} : u ∈ T'' ↔ u ∈ fresh ∨ (u ∈ T ∧ ¬p <+: u.place) := by
  obtain ⟨left, older, hold, hnew, _⟩ := detach_slip h
  obtain rfl := Option.some.inj (hdetach.symm.trans hnew)
  obtain ⟨_, t, _, hsplit, rfl, _, _⟩ := slip_eq_some.mp h
  have ht : t ∈ T := by simp [hsplit]
  have hfilter := Option.some.inj (hold.symm.trans (hT.detach ht))
  have hmem : u ∈ left ++ older ↔ u ∈ T ∧ ¬t.place <+: u.place := by
    rw [hfilter, List.mem_filter, decide_eq_true_iff]
  rw [← hmem]
  simp only [List.mem_append]
  exact or_left_comm

end MountTree

end Psbox.Foundations
