import Mathlib.Data.List.DropRight
import Psbox.Foundations.MountTree
import Psbox.Sandbox.Plan

/-!
# Where the Sandbox Sees a Host Path

`visible_through` (`supervisor.rs`): a host path is mapped through the writable binds of a list of
mounts. The list is in the order the mounts were made, but only approximately so. A bind counts when it is
the last mount of the list that contains the mapped path, and the only one at the deepest place that
does.

What the answer is put into is a text, so paths are as they are written here. The path of the source of a
bind is mapped to the place of the bind with a slash after it.
-/

namespace Psbox.Sandbox

open Psbox.Foundations

/-! ## Section 1: Paths as They Are Written -/

/-- An absolute path as it is written, split at its slashes. -/
abbrev Spelling := List String

/-- A name that means nothing: between two slashes, after the last one, or a dot. -/
def idle (name : String) : Bool :=
  name = "" || name = "."

namespace Spelling

/-- The path that is meant (`Path::components`). -/
def path (s : Spelling) : Path :=
  s.filter fun name => !idle name

/-- `Components::as_path`: without what means nothing at its two ends. -/
def trim (s : Spelling) : Spelling :=
  (s.dropWhile idle).rdropWhile idle

/-- `Path::strip_prefix`: what is written after the names of a path. -/
def strip : Path → Spelling → Option Spelling
  | [], s => some s.trim
  | name :: base, s =>
      match s.dropWhile idle with
      | [] => none
      | n :: rest => if n = name then strip base rest else none

/-- A path that ends with a slash. -/
def EndsInSlash (s : Spelling) : Prop :=
  s.getLast? = some ""

instance (s : Spelling) : Decidable s.EndsInSlash :=
  inferInstanceAs (Decidable (_ = _))

/-- A path, one slash, and what is written after it. -/
def slash (s rest : Spelling) : Spelling :=
  (if s.EndsInSlash then s.dropLast else s) ++ rest

/-- `Path::join` with a relative path, which may be empty: then the path ends with a slash. -/
def join (s rest : Spelling) : Spelling :=
  s.slash (if rest = [] then [""] else rest)

end Spelling

namespace Spelling

private theorem path_append (s rest : Spelling) : path (s ++ rest) = s.path ++ rest.path :=
  List.filter_append _ _

private theorem path_eq_nil {s : Spelling} : s.path = [] ↔ ∀ name ∈ s, idle name = true := by
  simp [path]

private theorem path_dropWhile (s : Spelling) : path (s.dropWhile idle) = s.path := by
  have hsplit : s.takeWhile idle ++ s.dropWhile idle = s := List.takeWhile_append_dropWhile
  have hidle : path (s.takeWhile idle) = [] := by
    rw [path_eq_nil]
    intro name hname
    exact List.mem_takeWhile_imp hname
  calc path (s.dropWhile idle) = path (s.takeWhile idle) ++ path (s.dropWhile idle) := by rw [hidle, List.nil_append]
    _ = s.path := by rw [← path_append, hsplit]

private theorem path_rdropWhile (s : Spelling) : path (s.rdropWhile idle) = s.path := by
  have hfilter : ∀ l : List String, path l.reverse = (path l).reverse := fun l => List.filter_reverse
  calc path (s.rdropWhile idle) = path (s.reverse.dropWhile idle).reverse := rfl
    _ = (path (s.reverse.dropWhile idle)).reverse := hfilter _
    _ = (path s.reverse).reverse := by rw [path_dropWhile]
    _ = s.path := by rw [hfilter, List.reverse_reverse]

private theorem path_trim (s : Spelling) : s.trim.path = s.path := by
  rw [trim, path_rdropWhile, path_dropWhile]

/-- What is trimmed does not end with a slash. -/
theorem getLast?_trim (s : Spelling) : s.trim.getLast? ≠ some "" := by
  intro hlast
  have hne : s.trim ≠ [] := by
    intro hnil
    rw [hnil] at hlast
    cases hlast
  have hidle := List.rdropWhile_last_not idle (s.dropWhile idle) hne
  have heq : s.trim.getLast hne = "" := by
    rw [List.getLast?_eq_some_getLast hne] at hlast
    exact Option.some.inj hlast
  exact hidle (by rw [show ((s.dropWhile idle).rdropWhile idle).getLast hne = "" from heq]; rfl)

/-- What is trimmed begins with a name. -/
theorem trim_eq_nil {s : Spelling} : s.trim = [] ↔ s.path = [] := by
  rw [trim, List.rdropWhile_eq_nil_iff, path_eq_nil]
  constructor
  · intro h name hname
    have hsplit : s.takeWhile idle ++ s.dropWhile idle = s := List.takeWhile_append_dropWhile
    rw [← hsplit] at hname
    obtain htake | hdrop := List.mem_append.mp hname
    · exact List.mem_takeWhile_imp htake
    · exact h name hdrop
  · intro h name hname
    exact h name ((List.dropWhile_suffix idle).mem hname)

private theorem path_of_dropWhile {s rest : Spelling} {name : String} (h : s.dropWhile idle = name :: rest) :
    s.path = name :: rest.path := by
  have hne : s.dropWhile idle ≠ [] := by simp [h]
  have hidle : idle name = false := by
    have hhead := List.head_dropWhile_not idle hne
    simpa [h] using hhead
  rw [← path_dropWhile, h]
  simp [path, hidle]

private theorem path_of_dropWhile_nil {s : Spelling} (h : s.dropWhile idle = []) : s.path = [] := by
  rw [← path_dropWhile, h]
  rfl

/-- What is written after the names of a path, with nothing where the path is all. -/
theorem strip_eq_some {base : Path} {s rest : Spelling} (h : s.strip base = some rest) :
    s.path = base ++ rest.path ∧ (rest = [] ↔ rest.path = []) ∧ rest.getLast? ≠ some "" := by
  induction base generalizing s with
  | nil =>
      cases h
      rw [path_trim]
      exact ⟨rfl, trim_eq_nil, getLast?_trim s⟩
  | cons name base ih =>
      rw [strip] at h
      split at h
      · cases h
      · rename_i n more hdrop
        split at h
        · rename_i hn
          subst hn
          obtain ⟨hpath, hrest⟩ := ih h
          rw [path_of_dropWhile hdrop, hpath]
          exact ⟨rfl, hrest⟩
        · cases h

/-- There is something exactly when the path begins with those names. -/
theorem exists_strip {base : Path} {s : Spelling} (h : base <+: s.path) : ∃ rest, s.strip base = some rest := by
  induction base generalizing s with
  | nil => exact ⟨s.trim, rfl⟩
  | cons name base ih =>
      cases hdrop : s.dropWhile idle with
      | nil =>
          rw [path_of_dropWhile_nil hdrop] at h
          exact absurd (List.prefix_nil.mp h) (List.cons_ne_nil name base)
      | cons n more =>
          rw [path_of_dropWhile hdrop] at h
          obtain ⟨rfl, hbase⟩ := List.cons_prefix_cons.mp h
          obtain ⟨rest, hrest⟩ := ih hbase
          refine ⟨rest, ?_⟩
          simp only [strip, hdrop, if_true]
          exact hrest

private theorem path_slash (s rest : Spelling) : (s.slash rest).path = s.path ++ rest.path := by
  unfold slash
  split
  · rename_i hslash
    obtain ⟨before, rfl⟩ := List.getLast?_eq_some_iff.mp hslash
    rw [List.dropLast_concat, path_append, path_append]
    simp [path, idle]
  · exact path_append s rest

theorem path_join (s rest : Spelling) : (s.join rest).path = s.path ++ rest.path := by
  unfold join
  rw [path_slash]
  split
  · rename_i hnil
    subst hnil
    rfl
  · rfl

/-- The empty path adds a slash to a path that does not end with one. -/
theorem join_nil (s : Spelling) : s.join [] = if s.EndsInSlash then s else s ++ [""] := by
  rw [join, if_pos rfl, slash]
  split
  · rename_i hslash
    obtain ⟨before, rfl⟩ := List.getLast?_eq_some_iff.mp hslash
    rw [List.dropLast_concat]
  · rfl

theorem join_of_ne {rest : Spelling} (h : rest ≠ []) (s : Spelling) : s.join rest = s.slash rest := by
  rw [join, if_neg h]

end Spelling

/-! ## Section 2: The Mapping -/

/-- The mount of a list that is seen at a path, if it is the last that contains it, and the only one at
the deepest place. -/
def topListed (mounts : List (Option Spelling × Spelling)) (path : Path) : Option Nat :=
  let containing := (mounts.zipIdx.filter fun x => x.1.2.path <+: path).map fun x => (x.2, x.1.2.path.length)
  match containing.getLast? with
  | none => none
  | some (last, depth) =>
      if containing.all (fun x => x.2 ≤ depth) ∧ (containing.filter fun x => x.2 = depth).length = 1 then
        some last
      else none

/-- Where a host path is seen through a mount of a list, with how specific the mount is. -/
def seenAt (mounts : List (Option Spelling × Spelling)) (h : Spelling) (x : (Option Spelling × Spelling) × Nat) :
    Option (Nat × Spelling) := do
  let src ← x.1.1
  let rest ← h.strip src.path
  let path := x.1.2.join rest
  if topListed mounts path.path = some x.2 then some (src.path.length, path) else none

/-- The last of the most specific ones (`max_by_key`). -/
def mostSpecific {α : Type} (seen : List (Nat × α)) : Option (Nat × α) :=
  seen.foldl (fun best x =>
    match best with
    | some b => if b.1 ≤ x.1 then some x else some b
    | none => some x) none

/-- Maps a host path through the writable binds among `mounts`, given with their places in the order they
were mounted. -/
def visibleThrough (mounts : List (Option Spelling × Spelling)) (h : Spelling) : Option Spelling :=
  (mostSpecific (mounts.zipIdx.filterMap (seenAt mounts h))).map Prod.snd

/-! ## Section 3: Which Bind Counts -/

private theorem mostSpecific_concat {α : Type} (seen : List (Nat × α)) (z : Nat × α) :
    mostSpecific (seen ++ [z]) =
      match mostSpecific seen with
      | some b => if b.1 ≤ z.1 then some z else some b
      | none => some z := by
  rw [mostSpecific, List.foldl_append]
  rfl

/-- There is an answer unless there is nothing to choose from. -/
theorem mostSpecific_eq_none {α : Type} {seen : List (Nat × α)} : mostSpecific seen = none ↔ seen = [] := by
  induction seen using List.reverseRecOn with
  | nil => simp [mostSpecific]
  | append_singleton seen z ih =>
      rw [mostSpecific_concat]
      split
      · split <;> simp
      · simp

/-- The answer is the last of those that are not less specific than any. -/
theorem mostSpecific_eq_some {α : Type} {seen : List (Nat × α)} {x : Nat × α} (h : mostSpecific seen = some x) :
    ∃ before after, seen = before ++ x :: after ∧ (∀ y ∈ before, y.1 ≤ x.1) ∧ ∀ y ∈ after, y.1 < x.1 := by
  induction seen using List.reverseRecOn generalizing x with
  | nil => cases h
  | append_singleton seen z ih =>
      rw [mostSpecific_concat] at h
      split at h
      · rename_i b hbest
        obtain ⟨before, after, hseen, hbefore, hafter⟩ := ih hbest
        split at h
        · rename_i hle
          cases h
          refine ⟨seen, [], rfl, ?_, fun y hy => by cases hy⟩
          -- the best so far is at least as specific as the others
          intro y hy
          rw [hseen] at hy
          obtain hy | hy := List.mem_append.mp hy
          · exact (hbefore y hy).trans hle
          obtain rfl | hy := List.mem_cons.mp hy
          · exact hle
          · exact (hafter y hy).le.trans hle
        · rename_i hlt
          cases h
          refine ⟨before, after ++ [z], by rw [hseen]; simp, hbefore, ?_⟩
          intro y hy
          obtain hy | hy := List.mem_append.mp hy
          · exact hafter y hy
          · obtain rfl := List.mem_singleton.mp hy
            exact Nat.lt_of_not_le hlt
      · rename_i hnone
        cases h
        rw [mostSpecific_eq_none.mp hnone]
        exact ⟨[], [], rfl, (fun y hy => by cases hy), (fun y hy => by cases hy)⟩

/-- What is seen of a list at a path: no other mount that contains it is as deep. -/
theorem topListed_eq_some {mounts : List (Option Spelling × Spelling)} {path : Path} {i : Nat}
    (h : topListed mounts path = some i) :
    ∃ m, mounts[i]? = some m ∧ m.2.path <+: path ∧
      ∀ j m', mounts[j]? = some m' → m'.2.path <+: path →
        m'.2.path.length ≤ m.2.path.length ∧ (m'.2.path.length = m.2.path.length → j = i) := by
  unfold topListed at h
  set containing := (mounts.zipIdx.filter fun x => x.1.2.path <+: path).map fun x => (x.2, x.1.2.path.length)
    with hcontaining
  have hmem : ∀ j d, (j, d) ∈ containing ↔
      ∃ m, mounts[j]? = some m ∧ m.2.path <+: path ∧ m.2.path.length = d := by
    intro j d
    rw [hcontaining, List.mem_map]
    constructor
    · rintro ⟨⟨m, k⟩, hin, hsame⟩
      obtain ⟨hzip, hpath⟩ := List.mem_filter.mp hin
      cases hsame
      exact ⟨m, List.mem_zipIdx_iff_getElem?.mp hzip, of_decide_eq_true hpath, rfl⟩
    · rintro ⟨m, hm, hpath, rfl⟩
      exact ⟨(m, j), List.mem_filter.mpr ⟨List.mem_zipIdx_iff_getElem?.mpr hm, decide_eq_true hpath⟩, rfl⟩
  dsimp only at h
  split at h
  · cases h
  · rename_i last depth hlast
    split at h
    · rename_i hdeepest
      cases h
      obtain ⟨hall, hone⟩ := hdeepest
      have hin : (i, depth) ∈ containing := List.mem_of_getLast? hlast
      obtain ⟨m, hm, hpath, hdepth⟩ := (hmem i depth).mp hin
      refine ⟨m, hm, hpath, ?_⟩
      intro j m' hm' hpath'
      have hin' : (j, m'.2.path.length) ∈ containing := (hmem j _).mpr ⟨m', hm', hpath', rfl⟩
      rw [hdepth]
      constructor
      · simpa using List.all_eq_true.mp hall _ hin'
      · intro hsame
        obtain ⟨only, honly⟩ := List.length_eq_one_iff.mp hone
        have hi : (i, depth) ∈ containing.filter fun x => x.2 = depth := List.mem_filter.mpr ⟨hin, by simp⟩
        have hj : (j, m'.2.path.length) ∈ containing.filter fun x => x.2 = depth :=
          List.mem_filter.mpr ⟨hin', by simpa using hsame⟩
        rw [honly] at hi hj
        have hij := (List.mem_singleton.mp hj).trans (List.mem_singleton.mp hi).symm
        exact (Prod.mk.inj hij).1
    · cases h

/-! ## Section 4: What the Sandbox Sees -/

/-- The tree of mounts that are mounted in an order, each with its number in the list. -/
def mountAll (order : List ((Option Spelling × Spelling) × Nat)) : MountTree String Nat :=
  order.foldl (fun T x => T.attach x.1.2.path x.2) []

private theorem nodup_zipIdx {α : Type} (l : List α) : l.zipIdx.Nodup := by
  apply List.Nodup.of_map Prod.snd
  rw [List.zipIdx_map_snd]
  exact List.nodup_range'

private theorem mountAll_eq (order : List ((Option Spelling × Spelling) × Nat)) :
    mountAll order = (order.map fun x => ⟨x.1.2.path, x.2⟩).reverse := by
  induction order using List.reverseRecOn with
  | nil => rfl
  | append_singleton order x ih =>
      rw [mountAll, List.foldl_append, List.map_append, List.reverse_append]
      show MountTree.attach (mountAll order) _ _ = _
      rw [ih]
      rfl

/-- However the mounts of a list are mounted, no mount above the place of a bind after it: the bind is
what is seen at a path. -/
def Seen (mounts : List (Option Spelling × Spelling)) (i : Nat) (m : Option Spelling × Spelling) (path : Path) : Prop :=
  ∀ before after, (before ++ (m, i) :: after).Perm mounts.zipIdx →
    (∀ x ∈ after, x.1.2.path <+: m.2.path → x.1.2.path = m.2.path) →
    (mountAll (before ++ (m, i) :: after)).top path = some ⟨m.2.path, i⟩

/-- The mount that counts is seen. -/
theorem seen_of_topListed {mounts : List (Option Spelling × Spelling)} {path : Path} {i : Nat}
    {m : Option Spelling × Spelling} (hm : mounts[i]? = some m) (h : topListed mounts path = some i) :
    Seen mounts i m path := by
  intro before after hperm habove
  obtain ⟨m', hm', hpath, hdeepest⟩ := topListed_eq_some h
  cases hm.symm.trans hm'
  have hnodup : (before ++ (m, i) :: after).Nodup := hperm.symm.nodup (nodup_zipIdx mounts)
  rw [mountAll_eq]
  apply MountTree.top_eq_some.mpr
  refine ⟨(after.map fun x => ⟨x.1.2.path, x.2⟩).reverse, (before.map fun x => ⟨x.1.2.path, x.2⟩).reverse, ?_, hpath, ?_⟩
  · simp
  · intro u hu hcontains
    obtain ⟨x, hx, rfl⟩ := List.mem_map.mp (List.mem_reverse.mp hu)
    obtain ⟨m', j⟩ := x
    have hin : (m', j) ∈ mounts.zipIdx := hperm.mem_iff.mp (by simp [hx])
    obtain ⟨hle, hsame⟩ := hdeepest j m' (List.mem_zipIdx_iff_getElem?.mp hin) hcontains
    -- a place on the way to the path that is no deeper than the bind's is above it, or the same
    have hprefix : m'.2.path <+: m.2.path := List.prefix_of_prefix_length_le hcontains hpath hle
    have hplace := habove (m', j) hx hprefix
    obtain rfl := hsame (by rw [hplace])
    have hsource : m' = m := by
      have hm' := List.mem_zipIdx_iff_getElem?.mp hin
      exact Option.some.inj (hm'.symm.trans hm)
    subst hsource
    rw [List.nodup_append] at hnodup
    exact (List.nodup_cons.mp hnodup.2.1).1 hx

/-- The path `p` is where the list has the host path `h`: for a writable bind of it, byte for byte its
place, or its place, a slash and the rest of `h`; and the bind is seen there. -/
def Maps (mounts : List (Option Spelling × Spelling)) (h p : Spelling) : Prop :=
  ∃ i src dst rest, mounts[i]? = some (some src, dst) ∧ h.strip src.path = some rest ∧
    p = (if rest = [] then dst else dst.slash rest) ∧ Seen mounts i (some src, dst) p.path

/-- A writable bind of the host path itself that counts at its own place. -/
def Whole (mounts : List (Option Spelling × Spelling)) (h : Spelling) (i : Nat) (dst : Spelling) : Prop :=
  ∃ src, mounts[i]? = some (some src, dst) ∧ src.path = h.path ∧ topListed mounts dst.path = some i

theorem seenAt_eq_some {mounts : List (Option Spelling × Spelling)} {h p : Spelling} {d i : Nat}
    {m : Option Spelling × Spelling} :
    seenAt mounts h (m, i) = some (d, p) ↔ ∃ src rest, m.1 = some src ∧ h.strip src.path = some rest ∧
      p = m.2.join rest ∧ topListed mounts p.path = some i ∧ d = src.path.length := by
  unfold seenAt
  simp only [Option.bind_eq_bind, Option.bind_eq_some_iff]
  constructor
  · rintro ⟨src, hsrc, rest, hrest, hif⟩
    split at hif
    · rename_i htop
      cases hif
      exact ⟨src, rest, hsrc, hrest, rfl, htop, rfl⟩
    · cases hif
  · rintro ⟨src, rest, hsrc, hrest, rfl, htop, rfl⟩
    exact ⟨src, hsrc, rest, hrest, if_pos htop⟩

/-- The answer comes from a mount of the list; no other mount is more specific, and none after it as
specific. -/
theorem visibleThrough_eq_some {mounts : List (Option Spelling × Spelling)} {h p : Spelling}
    (hp : visibleThrough mounts h = some p) :
    ∃ i m d, mounts[i]? = some m ∧ seenAt mounts h (m, i) = some (d, p) ∧
      ∀ j m' d' p', mounts[j]? = some m' → seenAt mounts h (m', j) = some (d', p') → d' ≤ d ∧ (i < j → d' < d) := by
  obtain ⟨⟨d, p'⟩, hbest, rfl⟩ := Option.map_eq_some_iff.mp hp
  obtain ⟨before, after, hseen, hbefore, hafter⟩ := mostSpecific_eq_some hbest
  obtain ⟨l₁, l₂, hzip, hl₁, hl₂⟩ := List.filterMap_eq_append_iff.mp hseen
  obtain ⟨skipped, ⟨m, i⟩, l₃, rfl, hskipped, hm, hl₃⟩ := List.filterMap_eq_cons_iff.mp hl₂
  have hat : mounts.zipIdx[(l₁ ++ skipped).length]? = some (m, i) := by
    rw [hzip, ← List.append_assoc, List.getElem?_append_right (Nat.le_refl _), Nat.sub_self]
    rfl
  have hi : i = (l₁ ++ skipped).length := by
    rw [List.getElem?_zipIdx] at hat
    obtain ⟨x, _, hx⟩ := Option.map_eq_some_iff.mp hat
    simpa using (Prod.mk.inj hx).2.symm
  refine ⟨i, m, d, List.mem_zipIdx_iff_getElem?.mp (List.mem_of_getElem? hat), hm, ?_⟩
  intro j m' d' p' hm' hseen'
  have hmem : (d', p') ∈ mounts.zipIdx.filterMap (seenAt mounts h) :=
    List.mem_filterMap.mpr ⟨(m', j), List.mem_zipIdx_iff_getElem?.mpr hm', hseen'⟩
  constructor
  · rw [hseen] at hmem
    obtain hmem | hmem := List.mem_append.mp hmem
    · exact hbefore _ hmem
    obtain hsame | hmem := List.mem_cons.mp hmem
    · exact (Prod.mk.inj hsame).1.le
    · exact (hafter _ hmem).le
  · intro hlt
    -- a mount after it is among those that come after it
    have hj : mounts.zipIdx[j]? = some (m', j) := by
      rw [List.getElem?_zipIdx, hm']
      simp
    rw [hzip, ← List.append_assoc, List.getElem?_append_right (by omega)] at hj
    obtain ⟨k, hk⟩ := Nat.exists_eq_add_of_lt hlt
    rw [← hi, show j - i = k + 1 by omega, List.getElem?_cons_succ] at hj
    apply hafter (d', p')
    rw [← hl₃]
    exact List.mem_filterMap.mpr ⟨(m', j), List.mem_of_getElem? hj, hseen'⟩

/-- The bind of a host path itself is seen at its place, with a slash. -/
theorem Whole.exists_seenAt {mounts : List (Option Spelling × Spelling)} {h dst : Spelling} {i : Nat}
    (hwhole : Whole mounts h i dst) :
    ∃ m, mounts[i]? = some m ∧ m.2 = dst ∧ seenAt mounts h (m, i) = some (h.path.length, dst.join []) := by
  obtain ⟨src, hm, hsrc, htop⟩ := hwhole
  have hprefix : src.path <+: h.path := by simp [hsrc]
  obtain ⟨rest, hrest⟩ := Spelling.exists_strip hprefix
  obtain ⟨hpath, hnil, _⟩ := Spelling.strip_eq_some hrest
  rw [hsrc] at hpath
  obtain rfl : rest = [] := hnil.mpr (List.self_eq_append_right.mp hpath)
  refine ⟨(some src, dst), hm, rfl, seenAt_eq_some.mpr ⟨src, [], rfl, hrest, rfl, ?_, by rw [hsrc]⟩⟩
  rw [Spelling.path_join]
  simpa [Spelling.path] using htop

/-- What is seen at no rest of the host path is the bind of the host path itself. -/
theorem whole_of_seenAt {mounts : List (Option Spelling × Spelling)} {h p src dst : Spelling} {i : Nat}
    (hm : mounts[i]? = some (some src, dst)) (hrest : h.strip src.path = some []) (hp : p = dst.join [])
    (htop : topListed mounts p.path = some i) : Whole mounts h i dst := by
  obtain ⟨hpath, _⟩ := Spelling.strip_eq_some hrest
  refine ⟨src, hm, by simpa [Spelling.path] using hpath.symm, ?_⟩
  rw [hp, Spelling.path_join] at htop
  simpa [Spelling.path] using htop

/-- What is answered is where the list has the host path, byte for byte and whatever the order of mounting,
exactly when the last bind of the host path itself that counts at its place, if there is one, has its
place written with a slash at its end. -/
theorem visibleThrough_maps_iff (mounts : List (Option Spelling × Spelling)) (h : Spelling) :
    (∀ p, visibleThrough mounts h = some p → Maps mounts h p) ↔
      ∀ i dst, Whole mounts h i dst → (∀ j dst', i < j → ¬Whole mounts h j dst') → dst.EndsInSlash := by
  constructor
  · intro hmaps i dst hwhole hlast
    obtain ⟨m, hm, rfl, hseen⟩ := hwhole.exists_seenAt
    -- the answer is at that bind's place: no other is as specific, but the ones before it
    have hne : mounts.zipIdx.filterMap (seenAt mounts h) ≠ [] :=
      List.ne_nil_of_mem (List.mem_filterMap.mpr ⟨(m, i), List.mem_zipIdx_iff_getElem?.mpr hm, hseen⟩)
    obtain ⟨best, hbest⟩ := Option.ne_none_iff_exists'.mp (mt mostSpecific_eq_none.mp hne)
    have hvisible : visibleThrough mounts h = some best.2 := by
      rw [visibleThrough, hbest]
      rfl
    obtain ⟨k, m', d, hm', hseen', hdeepest⟩ := visibleThrough_eq_some hvisible
    obtain ⟨src', rest', hsrc', hrest', hjoin, htop, rfl⟩ := seenAt_eq_some.mp hseen'
    obtain ⟨hpath, hnil, _⟩ := Spelling.strip_eq_some hrest'
    obtain ⟨hle, hbefore⟩ := hdeepest i m _ _ hm hseen
    have hlength : h.path.length = src'.path.length + rest'.path.length := by
      rw [hpath, List.length_append]
    obtain rfl : rest' = [] := hnil.mpr (List.eq_nil_of_length_eq_zero (by omega))
    obtain ⟨m₁, dst'⟩ := m'
    cases hsrc'
    have hwhole' := whole_of_seenAt hm' hrest' hjoin htop
    have hki : k = i := by
      have hik : ¬i < k := fun hlt => hlast k dst' hlt hwhole'
      have hki : ¬k < i := fun hlt => by
        have hless := hbefore hlt
        omega
      omega
    subst hki
    cases hm.symm.trans hm'
    -- the answer is the place with a slash added, which is no place of the list and ends no rest of a path
    by_contra hends
    rw [Spelling.join_nil, if_neg hends] at hjoin
    obtain ⟨j, src'', dst'', rest'', hj, hrest'', hform, _⟩ := hmaps _ hvisible
    obtain ⟨_, _, hlast''⟩ := Spelling.strip_eq_some hrest''
    split at hform
    · have hsame : dst'' = dst' ++ [""] := hform.symm.trans hjoin
      have hpath'' : dst''.path = dst'.path := by
        rw [hsame, Spelling.path_append]
        simp [Spelling.path, idle]
      obtain ⟨m₂, hm₂, hcontains, hdeepest'⟩ := topListed_eq_some htop
      cases hm.symm.trans hm₂
      have hcontains'' : dst''.path <+: Spelling.path best.2 := by
        rw [hpath'']
        exact hcontains
      obtain rfl := (hdeepest' j _ hj hcontains'').2 (by rw [hpath''])
      cases hm.symm.trans hj
      simpa using congrArg List.length hsame
    · rename_i hne
      rw [hjoin, Spelling.slash] at hform
      have hends' := congrArg List.getLast? hform
      rw [List.getLast?_concat, List.getLast?_append_of_ne_nil _ hne] at hends'
      exact hlast'' hends'.symm
  · intro hslash p hp
    obtain ⟨i, m, d, hm, hseen, hdeepest⟩ := visibleThrough_eq_some hp
    obtain ⟨src, rest, hsrc, hrest, hjoin, htop, rfl⟩ := seenAt_eq_some.mp hseen
    obtain ⟨m₁, dst⟩ := m
    cases hsrc
    refine ⟨i, src, dst, rest, hm, hrest, ?_, seen_of_topListed hm htop⟩
    split
    · rename_i hnil
      subst hnil
      have hwhole := whole_of_seenAt hm hrest hjoin htop
      have hends : dst.EndsInSlash := by
        apply hslash i dst hwhole
        intro j dst' hlt hwhole'
        obtain ⟨m', hm', _, hseen'⟩ := hwhole'.exists_seenAt
        have hlater := (hdeepest j m' _ _ hm' hseen').2 hlt
        obtain ⟨src', hm'', hsrc', _⟩ := hwhole
        cases hm.symm.trans hm''
        rw [hsrc'] at hlater
        exact absurd hlater (Nat.lt_irrefl _)
      rw [hjoin, Spelling.join_nil, if_pos hends]
    · rename_i hne
      rw [hjoin, Spelling.join_of_ne hne]

/-- A file that is bound at another place. -/
def fileBind : List (Option Spelling × Spelling) :=
  [(some ["home", "u", "notes.txt"], ["mnt", "notes.txt"])]

theorem not_maps_fileBind :
    visibleThrough fileBind ["home", "u", "notes.txt"] = some ["mnt", "notes.txt", ""] ∧
      ¬Maps fileBind ["home", "u", "notes.txt"] ["mnt", "notes.txt", ""] := by
  refine ⟨by decide, ?_⟩
  rintro ⟨i, src, dst, rest, hm, hrest, hform, _⟩
  cases i with
  | succ i => cases hm
  | zero =>
      cases hm
      obtain rfl : rest = [] := by
        have hstrip : Spelling.strip (Spelling.path ["home", "u", "notes.txt"]) ["home", "u", "notes.txt"] = some [] := by
          decide
        exact Option.some.inj (hrest.symm.trans hstrip)
      cases hform

end Psbox.Sandbox
