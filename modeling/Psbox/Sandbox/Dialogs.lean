import Psbox.Sandbox.Records

/-!
# Files Chosen in a Dialog

`Supervisor::expose` answers where the sandbox sees a host file. The answer is computed from the list of
the plan's mounts and the records of live mounts (`visible_through`), not from what is mounted. Here the
answers are compared with the tree of mounts.
-/

namespace Psbox.Sandbox

open Psbox.Foundations

/-! ## Section 1: What the Tree Shows -/

/-- Beneath its place a mount shows what is beneath its source. -/
def Mounted.Puts (t : Mounted String Source) (h p : Path) : Prop :=
  ∃ src rest, t.what.writable = some src ∧ h = src ++ rest ∧ p = t.place ++ rest

/-- The tree shows a host file at a path, through a mount that can be written, and the path is written as
that of a file. -/
def Shows (T : Tree) (h p : Spelling) : Prop :=
  ¬p.EndsInSlash ∧ ∃ t, MountTree.top T p.path = some t ∧ Mounted.Puts t h.path p.path

/-- A mount and a bind whose sources are the same names above or beneath each other as their places. -/
def Mounted.InLine (t : Mounted String Source) (src dst : Path) : Prop :=
  ∃ w, t.what.writable = some w ∧
    ((∃ r, src = w ++ r ∧ dst = t.place ++ r) ∨ ∃ r, w = src ++ r ∧ t.place = dst ++ r)

private theorem puts_iff_inLine {t : Mounted String Source} {src dst rest : Path} (hplace : t.place <+: dst ++ rest) :
    Mounted.Puts t (src ++ rest) (dst ++ rest) ↔ Mounted.InLine t src dst := by
  constructor
  · rintro ⟨w, r, hw, hh, hp⟩
    refine ⟨w, hw, ?_⟩
    -- The source is above the file's path, or beneath it.
    rcases List.append_eq_append_iff.mp hp with ⟨l, hl, hr⟩ | ⟨l, hl, hr⟩
    · right
      refine ⟨l, ?_, hl⟩
      rw [hr, ← List.append_assoc] at hh
      exact (List.append_cancel_right hh).symm
    · left
      refine ⟨l, ?_, hl⟩
      rw [hr, ← List.append_assoc] at hh
      exact List.append_cancel_right hh
  · rintro ⟨w, hw, ⟨r, rfl, rfl⟩ | ⟨r, rfl, hdst⟩⟩
    · exact ⟨w, r ++ rest, hw, by simp, by simp⟩
    · obtain ⟨l, hl⟩ := hplace
      rw [hdst, List.append_assoc] at hl
      obtain rfl := List.append_cancel_left hl
      exact ⟨src ++ r, l, hw, by simp, by simp [hdst]⟩

/-! ## Section 2: What the List Shows -/

/-- The writable bind that a list shows a host path through: one that is seen in the list at the path
where it puts the host path, with the deepest source, and the last of these. -/
def Through (mounts : List (Option Spelling × Spelling)) (h src dst rest : Spelling) : Prop :=
  ∃ i, mounts[i]? = some (some src, dst) ∧ h.strip src.path = some rest ∧
    topListed mounts (dst.join rest).path = some i ∧
    ∀ j src' dst' rest', mounts[j]? = some (some src', dst') → h.strip src'.path = some rest' →
      topListed mounts (dst'.join rest').path = some j →
        src'.path.length ≤ src.path.length ∧ (i < j → src'.path.length < src.path.length)

private theorem through_of_visible {mounts : List (Option Spelling × Spelling)} {h p : Spelling}
    (hp : visibleThrough mounts h = some p) :
    ∃ src dst rest, Through mounts h src dst rest ∧ p = dst.join rest := by
  obtain ⟨i, m, d, hm, hseen, hbest⟩ := visibleThrough_eq_some hp
  obtain ⟨src, rest, hsrc, hrest, hjoin, htop, rfl⟩ := seenAt_eq_some.mp hseen
  obtain ⟨m₁, dst⟩ := m
  cases hsrc
  refine ⟨src, dst, rest, ⟨i, hm, hrest, hjoin ▸ htop, ?_⟩, hjoin⟩
  intro j src' dst' rest' hm' hrest' htop'
  exact hbest j (some src', dst') _ _ hm' (seenAt_eq_some.mpr ⟨src', rest', rfl, hrest', rfl, htop', rfl⟩)

private theorem visible_of_through {mounts : List (Option Spelling × Spelling)} {h src dst rest : Spelling}
    (hthrough : Through mounts h src dst rest) : (visibleThrough mounts h).isSome := by
  obtain ⟨i, hm, hrest, htop, _⟩ := hthrough
  have hseen : seenAt mounts h ((some src, dst), i) = some (src.path.length, dst.join rest) :=
    seenAt_eq_some.mpr ⟨src, rest, rfl, hrest, rfl, htop, rfl⟩
  have hmem : (src.path.length, dst.join rest) ∈ mounts.zipIdx.filterMap (seenAt mounts h) :=
    List.mem_filterMap.mpr ⟨_, List.mem_zipIdx_iff_getElem?.mpr hm, hseen⟩
  unfold visibleThrough
  rw [Option.isSome_map, Option.isSome_iff_ne_none, ne_eq, mostSpecific_eq_none]
  exact List.ne_nil_of_mem hmem

/-- There is one such bind. -/
theorem Through.unique {mounts : List (Option Spelling × Spelling)} {h src dst rest src' dst' rest' : Spelling}
    (hthrough : Through mounts h src dst rest) (hthrough' : Through mounts h src' dst' rest') :
    src = src' ∧ dst = dst' ∧ rest = rest' := by
  obtain ⟨i, hm, hrest, htop, hbest⟩ := hthrough
  obtain ⟨j, hm', hrest', htop', hbest'⟩ := hthrough'
  obtain ⟨hle, hlt⟩ := hbest j src' dst' rest' hm' hrest' htop'
  obtain ⟨hle', hlt'⟩ := hbest' i src dst rest hm hrest htop
  obtain rfl : i = j := by
    -- Of two binds of one length the later one counts.
    have hij : ¬i < j := fun h => absurd (hlt h) (Nat.not_lt.mpr hle')
    have hji : ¬j < i := fun h => absurd (hlt' h) (Nat.not_lt.mpr hle)
    omega
  cases hm.symm.trans hm'
  exact ⟨rfl, rfl, Option.some.inj (hrest.symm.trans hrest')⟩

theorem Through.strip {mounts : List (Option Spelling × Spelling)} {h src dst rest : Spelling}
    (hthrough : Through mounts h src dst rest) : h.strip src.path = some rest := by
  obtain ⟨_, _, hrest, _⟩ := hthrough
  exact hrest

/-- What is written after the source of a bind is nothing exactly when the bind is of the path itself. -/
theorem Through.rest_eq_nil {mounts : List (Option Spelling × Spelling)} {h src dst rest : Spelling}
    (hthrough : Through mounts h src dst rest) : rest = [] ↔ src.path = h.path := by
  obtain ⟨hpath, hnil, _⟩ := Spelling.strip_eq_some hthrough.strip
  rw [hnil, hpath]
  exact List.self_eq_append_right.symm

/-- A slash is written at the end when nothing else is. -/
theorem endsInSlash_join {base : Path} {h dst rest : Spelling} (hrest : h.strip base = some rest) :
    (dst.join rest).EndsInSlash ↔ rest = [] := by
  obtain ⟨_, _, hlast⟩ := Spelling.strip_eq_some hrest
  constructor
  · intro hends
    by_contra hne
    rw [Spelling.join_of_ne hne] at hends
    unfold Spelling.slash Spelling.EndsInSlash at hends
    rw [List.getLast?_append_of_ne_nil _ hne] at hends
    exact hlast hends
  · rintro rfl
    rw [Spelling.join_nil]
    split
    · assumption
    · simp [Spelling.EndsInSlash]

namespace Sup

/-- The list and the tree agree where the list shows a host file: it is in a directory that is bound, and
what is mounted on top there can be written and is in line with that bind. -/
def Agrees (s : Sup) (h : Spelling) : Prop :=
  ∀ src dst rest, Through s.listed h src dst rest → src.path ≠ h.path ∧
    ∃ t, MountTree.top s.tree (dst.join rest).path = some t ∧ Mounted.InLine t src.path dst.path

theorem shows_iff {s : Sup} {h p : Spelling} (hp : s.visibleAt h = some p) : Shows s.tree h p ↔ s.Agrees h := by
  obtain ⟨src, dst, rest, hthrough, rfl⟩ := through_of_visible hp
  obtain ⟨hpath, _⟩ := Spelling.strip_eq_some hthrough.strip
  have hseen : ∀ t, MountTree.top s.tree (dst.join rest).path = some t →
      (Mounted.Puts t h.path (dst.join rest).path ↔ Mounted.InLine t src.path dst.path) := by
    intro t ht
    have hplace := (MountTree.mem_of_top ht).2
    rw [Spelling.path_join] at hplace ⊢
    rw [hpath]
    exact puts_iff_inLine hplace
  -- There is one such bind, so the agreement is about this one.
  have hone : s.Agrees h ↔ src.path ≠ h.path ∧
      ∃ t, MountTree.top s.tree (dst.join rest).path = some t ∧ Mounted.InLine t src.path dst.path := by
    constructor
    · exact fun hagrees => hagrees src dst rest hthrough
    · intro hhere src' dst' rest' hthrough'
      obtain ⟨rfl, rfl, rfl⟩ := hthrough.unique hthrough'
      exact hhere
  rw [hone]
  unfold Shows
  rw [endsInSlash_join hthrough.strip, hthrough.rest_eq_nil]
  apply and_congr_right
  intro _
  exact exists_congr fun t => and_congr_right fun ht => hseen t ht

/-- What is mounted for the dialog is shown at its place. -/
theorem Pushed.shows {lossy : String → String} {s s' : Sup} {h : Spelling} {base : Path} {n file : String}
    (hpushed : Pushed lossy s s' h (base ++ ["doc", n, file]) .readWrite) (hfile : fileName h = some file) :
    Shows s'.tree h (base ++ ["doc", n, file]) := by
  -- The name is not idle, so the path does not end in a slash.
  have hname : file ∈ h.path := List.mem_of_getLast? (Option.eq_some_of_filter_eq_some hfile)
  have hidle : idle file = false := by simpa using (List.mem_filter.mp hname).2
  constructor
  · intro hends
    have hlast : file = "" := by simpa [Spelling.EndsInSlash] using hends
    rw [hlast] at hidle
    cases hidle
  · rw [hpushed.tree, MountTree.top_attach, if_pos (List.prefix_refl _)]
    exact ⟨_, rfl, h.path, [], rfl, (List.append_nil _).symm, (List.append_nil _).symm⟩

/-- A file that is to be saved is there, or can be made. -/
def Creatable (s : Sup) (h : Spelling) (create made : Bool) : Prop :=
  create = true → s.host h.path = true ∨ made = true

private theorem creatable_of_expose {lossy : String → String} {s s' : Sup} {h p : Spelling} {create made ok : Bool}
    (hs : s.expose lossy h create made ok = (s', some p)) : s.Creatable h create made := by
  intro hcreate
  unfold expose at hs
  split at hs
  · cases hs
  · rename_i hmade
    simp only [hcreate, true_and, Bool.not_eq_true', not_and, Bool.not_eq_false] at hmade
    -- The file is there, or it was made.
    cases hhost : s.host h.path with
    | true => exact Or.inl rfl
    | false => exact Or.inr (hmade hhost)

/-- Where the list shows a file is the answer. -/
theorem expose_visible (lossy : String → String) {s : Sup} {h p : Spelling} {create made : Bool} (ok : Bool)
    (hcreatable : s.Creatable h create made) (hvisible : s.visibleAt h = some p) :
    ∃ s', s.expose lossy h create made ok = (s', some p) := by
  -- Nothing that is checked before the answer fails.
  have hmade : ¬(create = true ∧ (!s.host h.path) = true ∧ (!made) = true) := by
    rintro ⟨hcreate, hhost, hnot⟩
    rcases hcreatable hcreate with hthere | hmade
    · simp [hthere] at hhost
    · simp [hmade] at hnot
  -- A file that was made changes nothing mounted.
  have hsame : Sup.visibleAt (if create = true then { s with host := fun p => decide (p = h.path) || s.host p }
      else s) h = some p := by
    split <;> exact hvisible
  unfold expose
  rw [if_neg hmade]
  dsimp only
  rw [hsame]
  exact ⟨_, rfl⟩

/-- An answer is where the tree shows the file exactly when the list and the tree agree about it. -/
theorem expose_shows_iff (lossy : String → String) (s : Sup) (h : Spelling) (create made ok : Bool) :
    (∀ s' p, s.expose lossy h create made ok = (s', some p) → Shows s'.tree h p) ↔
      (s.Creatable h create made → s.Agrees h) := by
  constructor
  · intro hshows hcreatable src dst rest hthrough
    obtain ⟨p, hvisible⟩ := Option.isSome_iff_exists.mp (visible_of_through hthrough)
    obtain ⟨s', hs⟩ := expose_visible lossy ok hcreatable hvisible
    -- The answer is read off the list, where nothing is mounted for it.
    have hshown := hshows s' p hs
    rcases expose_answers hs with ⟨_, _, htree⟩ | ⟨hnone, _⟩
    · rw [htree] at hshown
      exact (shows_iff hvisible).mp hshown src dst rest hthrough
    · cases hnone.symm.trans hvisible
  · intro hagrees s' p hs
    rcases expose_answers hs with ⟨hvisible, _, htree⟩ | ⟨_, file, hfile, rfl, hpushed⟩
    · rw [htree]
      exact (shows_iff hvisible).mpr (hagrees (creatable_of_expose hs))
    · exact hpushed.shows hfile

end Sup

/-! ## Section 3: A Share That is Not There -/

/-- A config with an optional share that can be written. -/
def optionalShare : Spec where
  mount := [("data", { source := some ["srv", "data"], destination := ["data"], mode := .readWrite, optional := true })]

/-- The directory of the share appears after the start, and a file in it. -/
def appearsLate : List Action :=
  [.appear ["srv", "data"], .appear ["srv", "data", "notes.txt"]]

end Psbox.Sandbox
