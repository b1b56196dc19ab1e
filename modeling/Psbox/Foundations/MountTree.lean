import Mathlib.Data.List.Basic
import Mathlib.Tactic.Common

/-!
# Trees of Mounts

A tree of mounts as the list of its mounts, the newest first. What is seen at a path is
the newest mount at or above it: a mount covers what was there before, at its place and
beneath it.

So a mount is attached on what is seen at its place, and what is attached beneath its
place later is attached to it, and goes with it when it is detached.
-/

namespace Psbox.Foundations

/-- A mount at a place, given by its path. -/
structure Mounted (κ α : Type*) where
  place : List κ
  what : α
  deriving DecidableEq, Repr

abbrev MountTree (κ α : Type*) := List (Mounted κ α)

namespace MountTree

variable {κ α : Type*} [DecidableEq κ]

/-! ## Section 1: Operations -/

/-- The mount seen at a path. -/
def top (T : MountTree κ α) (p : List κ) : Option (Mounted κ α) :=
  T.find? fun t => t.place <+: p

def attach (T : MountTree κ α) (p : List κ) (a : α) : MountTree κ α :=
  ⟨p, a⟩ :: T

/-- Takes the mount seen at a path away, with all beneath it. There is no result when none
is mounted right there. -/
def detach (p : List κ) : MountTree κ α → Option (MountTree κ α)
  | [] => none
  | t :: T =>
      if t.place = p then some T
      -- Something newer covers the place.
      else if t.place <+: p then none
      -- What is beneath the place goes with it.
      else if p <+: t.place then detach p T
      else (detach p T).map (t :: ·)

/-- The mounts at a place, the newest first. -/
def stack (T : MountTree κ α) (p : List κ) : List α :=
  (T.filter fun t => t.place = p).map Mounted.what

/-- What was mounted after the topmost mount at a place. -/
def newer (T : MountTree κ α) (p : List κ) : MountTree κ α :=
  T.takeWhile fun t => t.place ≠ p

/-! ## Section 2: What is Seen -/

theorem top_attach (T : MountTree κ α) (p : List κ) (a : α) (q : List κ) :
    (T.attach p a).top q = if p <+: q then some ⟨p, a⟩ else T.top q := by
  unfold attach top
  rw [List.find?_cons]
  -- At or beneath the place, or elsewhere.
  by_cases h : p <+: q
  · rw [if_pos h]
    simp only [h, decide_true]
  · rw [if_neg h]
    simp only [h, decide_false]

theorem top_append (T T' : MountTree κ α) (q : List κ) :
    top (T ++ T') q = (T.top q).or (T'.top q) :=
  List.find?_append

theorem top_eq_none {T : MountTree κ α} {q : List κ} :
    T.top q = none ↔ ∀ t ∈ T, ¬t.place <+: q := by
  unfold top
  simp

/-- The mount seen at a path is the first at or above it. -/
theorem top_eq_some {T : MountTree κ α} {q : List κ} {t : Mounted κ α} :
    T.top q = some t ↔
      ∃ newer older, T = newer ++ t :: older ∧ t.place <+: q ∧ ∀ u ∈ newer, ¬u.place <+: q := by
  unfold top
  rw [List.find?_eq_some_iff_append]
  constructor
  · rintro ⟨hplace, newer, older, hT, hnewer⟩
    refine ⟨newer, older, hT, by simpa using hplace, ?_⟩
    intro u hu
    simpa using hnewer u hu
  · rintro ⟨newer, older, hT, hplace, hnewer⟩
    refine ⟨by simpa using hplace, newer, older, hT, ?_⟩
    intro u hu
    simpa using hnewer u hu

theorem mem_of_top {T : MountTree κ α} {q : List κ} {t : Mounted κ α} (h : T.top q = some t) :
    t ∈ T ∧ t.place <+: q := by
  obtain ⟨newer, older, hT, hplace, _⟩ := top_eq_some.mp h
  refine ⟨?_, hplace⟩
  rw [hT]
  simp

/-! ## Section 3: What Goes -/

/-- What is detached is seen at its path, and goes with the newer ones beneath it. -/
theorem detach_eq_some {T T' : MountTree κ α} {p : List κ} :
    T.detach p = some T' ↔
      ∃ newer t older, T = newer ++ t :: older ∧ t.place = p ∧
        (∀ u ∈ newer, ¬u.place <+: p) ∧ T' = newer.filter (fun u => ¬p <+: u.place) ++ older := by
  -- Along the tree, from the newest mount on.
  induction T generalizing T' with
  | nil =>
      constructor
      · intro h
        cases h
      · rintro ⟨newer, t, older, hT, _⟩
        simp at hT
  | cons u T ih =>
      unfold detach
      constructor
      · intro h
        split at h
        · rename_i hplace
          cases h
          exact ⟨[], u, T, rfl, hplace, fun _ hu => (nomatch hu), rfl⟩
        split at h
        · cases h
        rename_i hplace habove
        split at h
        · rename_i hbeneath
          obtain ⟨newer, t, older, hT, ht, hnewer, hT'⟩ := ih.mp h
          refine ⟨u :: newer, t, older, by rw [hT]; rfl, ht, ?_, ?_⟩
          · exact List.forall_mem_cons.mpr ⟨habove, hnewer⟩
          · rw [List.filter_cons_of_neg (by simpa using hbeneath), hT']
        · rename_i hbeneath
          obtain ⟨T'', hrest, hsame⟩ := Option.map_eq_some_iff.mp h
          obtain ⟨newer, t, older, hT, ht, hnewer, hT'⟩ := ih.mp hrest
          refine ⟨u :: newer, t, older, by rw [hT]; rfl, ht, ?_, ?_⟩
          · exact List.forall_mem_cons.mpr ⟨habove, hnewer⟩
          · rw [List.filter_cons_of_pos (by simpa using hbeneath), ← hsame, hT']
            rfl
      · rintro ⟨newer, t, older, hT, ht, hnewer, hT'⟩
        cases newer with
        | nil =>
            obtain ⟨rfl, rfl⟩ := List.cons.inj hT
            rw [if_pos ht, hT']
            rfl
        -- What is newer neither is the place nor covers it.
        | cons v newer =>
            obtain ⟨rfl, hrest⟩ := List.cons.inj hT
            obtain ⟨habove, hnewer⟩ := List.forall_mem_cons.mp hnewer
            have hplace : u.place ≠ p := fun h => habove (h ▸ List.prefix_refl _)
            rw [if_neg hplace, if_neg habove]
            split
            · rename_i hbeneath
              rw [List.filter_cons_of_neg (by simpa using hbeneath)] at hT'
              exact ih.mpr ⟨newer, t, older, hrest, ht, hnewer, hT'⟩
            · rename_i hbeneath
              rw [List.filter_cons_of_pos (by simpa using hbeneath)] at hT'
              rw [ih.mpr ⟨newer, t, older, hrest, ht, hnewer, rfl⟩, hT']
              rfl

theorem detach_sublist {T T' : MountTree κ α} {p : List κ} (h : T.detach p = some T') :
    T'.Sublist T := by
  obtain ⟨newer, t, older, hT, _, _, hT'⟩ := detach_eq_some.mp h
  rw [hT, hT']
  exact List.Sublist.append List.filter_sublist (List.sublist_cons_self _ _)

/-- There is a result exactly when the mount seen at the path is at the path. -/
theorem detach_isSome {T : MountTree κ α} {p : List κ} :
    (T.detach p).isSome ↔ ∃ t, T.top p = some t ∧ t.place = p := by
  constructor
  · intro h
    obtain ⟨T', hT'⟩ := Option.isSome_iff_exists.mp h
    obtain ⟨newer, t, older, hT, ht, hnewer, _⟩ := detach_eq_some.mp hT'
    exact ⟨t, top_eq_some.mpr ⟨newer, older, hT, ht ▸ List.prefix_refl _, hnewer⟩, ht⟩
  · rintro ⟨t, htop, ht⟩
    obtain ⟨newer, older, hT, _, hnewer⟩ := top_eq_some.mp htop
    rw [detach_eq_some.mpr ⟨newer, t, older, hT, ht, hnewer, rfl⟩]
    rfl

/-- Elsewhere all is seen as before. -/
theorem top_detach {T T' : MountTree κ α} {p q : List κ} (h : T.detach p = some T') (hq : ¬p <+: q) :
    T'.top q = T.top q := by
  obtain ⟨newer, t, older, hT, ht, _, hT'⟩ := detach_eq_some.mp h
  -- What goes along is seen at no such path.
  have hnewer : top (newer.filter fun u => ¬p <+: u.place) q = top newer q := by
    unfold top
    rw [List.find?_filter]
    congr 1
    funext u
    -- What is at or above `q` is not beneath `p`.
    by_cases hu : u.place <+: q
    · have hp : ¬p <+: u.place := fun hp => hq (hp.trans hu)
      simp [hu, hp]
    · simp [hu]
  rw [hT, hT', top_append, top_append, hnewer]
  unfold top
  rw [List.find?_cons_of_neg]
  simpa [ht] using hq

theorem stack_attach (T : MountTree κ α) (p : List κ) (a : α) (q : List κ) :
    (T.attach p a).stack q = if p = q then a :: T.stack q else T.stack q := by
  unfold attach stack
  -- At its own place, or elsewhere.
  by_cases h : p = q
  · rw [if_pos h, List.filter_cons_of_pos (by simpa using h)]
    rfl
  · rw [if_neg h, List.filter_cons_of_neg (by simpa using h)]

/-! ## Section 4: Stacks -/

theorem stack_append (T T' : MountTree κ α) (p : List κ) : stack (T ++ T') p = stack T p ++ stack T' p := by
  unfold stack
  rw [List.filter_append, List.map_append]

theorem mem_stack {T : MountTree κ α} {p : List κ} {a : α} : a ∈ T.stack p ↔ (⟨p, a⟩ : Mounted κ α) ∈ T := by
  unfold stack
  constructor
  · intro h
    obtain ⟨t, ht, rfl⟩ := List.mem_map.mp h
    obtain ⟨hmem, hplace⟩ := List.mem_filter.mp ht
    obtain rfl : t.place = p := of_decide_eq_true hplace
    exact hmem
  · intro h
    exact List.mem_map.mpr ⟨_, List.mem_filter.mpr ⟨h, by simp⟩, rfl⟩

/-- What was just attached is what is detached. -/
theorem detach_attach (T : MountTree κ α) (p : List κ) (a : α) : (T.attach p a).detach p = some T :=
  if_pos rfl

theorem newer_append {T T' : MountTree κ α} {p : List κ} (h : ∀ t ∈ T, t.place ≠ p) :
    newer (T ++ T') p = T ++ newer T' p := by
  unfold newer
  exact List.takeWhile_append_of_pos fun t ht => decide_eq_true (h t ht)

/-- What is detached, and what goes with it: the newer mounts beneath it. -/
theorem detach_newer {T T' : MountTree κ α} {p : List κ} (h : T.detach p = some T') :
    ∃ t older, T = T.newer p ++ t :: older ∧ t.place = p ∧
      T' = (T.newer p).filter (fun u => ¬p <+: u.place) ++ older := by
  obtain ⟨newer', t, older, hT, ht, hnewer, hT'⟩ := detach_eq_some.mp h
  -- A newer mount at the place would be what is detached.
  have hne : ∀ u ∈ newer', u.place ≠ p := fun u hu hplace => hnewer u hu (hplace ▸ List.prefix_refl _)
  have hsame : T.newer p = newer' := by
    rw [hT, newer_append hne]
    unfold newer
    rw [List.takeWhile_cons_of_neg (by simp [ht]), List.append_nil]
  rw [hsame]
  exact ⟨t, older, hT, ht, hT'⟩

/-- What is seen at a place and is mounted right there is the topmost of its stack. -/
theorem stack_of_top {T : MountTree κ α} {p : List κ} {t : Mounted κ α} (h : T.top p = some t)
    (hplace : t.place = p) : ∃ below, T.stack p = t.what :: below := by
  obtain ⟨newer, older, hT, _, hnewer⟩ := top_eq_some.mp h
  -- The newer ones are at other places.
  have hnone : stack newer p = [] := by
    unfold stack
    rw [List.map_eq_nil_iff, List.filter_eq_nil_iff]
    intro u hu hsame
    exact hnewer u hu (of_decide_eq_true hsame ▸ List.prefix_refl _)
  refine ⟨stack older p, ?_⟩
  rw [hT, stack_append, hnone, List.nil_append]
  unfold stack
  rw [List.filter_cons_of_pos (by simpa using hplace)]
  rfl

end MountTree

end Psbox.Foundations
