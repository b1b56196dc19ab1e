import Mathlib.Data.List.AList
import Psbox.Install.Build

/-!
# Files

What there is on disk, as `install.rs` sees it. What is read at a path is read through symbolic
links; what is renamed over a path or removed there takes the place of the link itself.

A link reads on as it did while the files on its way do (`follow_congr`), and reads what is written
over one of them (`follow_cut`).
-/

namespace Psbox.Install

open Psbox.Foundations Psbox.Desktop

/-! ## Section 1: What Is at a Path -/

/-- A path, as its components. -/
abbrev Path := List Text

/-- What is found at a path. -/
inductive Node where
  | text (t : Text)
  /-- A file that cannot be read, or not as text. -/
  | unreadable
  | directory
  /-- A symbolic link, with the path that its text stands for. -/
  | link (target : Path)
  deriving DecidableEq

/-- What there is, by path, in the order that directories are listed. Paths are those that files
really have: only their last component may be a link. -/
abbrev Files := AList fun _ : Path => Node

/-- Where the symbolic link at a path leads. -/
def Files.link? (files : Files) (p : Path) : Option Path :=
  match files.lookup p with
  | some (.link target) => some target
  | _ => none

/-- How many links the kernel follows. -/
def maxLinks : Nat := 40

/-- The path that is reached through at most so many links: none if there are more. -/
def Files.follow (files : Files) : Nat → Path → Option Path
  | 0, p => if (files.link? p).isSome then none else some p
  | n + 1, p =>
      match files.link? p with
      | some target => files.follow n target
      | none => some p

/-- The paths that so many links lead to in turn. -/
def Files.way (files : Files) : Nat → Path → List Path
  | 0, _ => []
  | n + 1, p =>
      match files.link? p with
      | some target => target :: files.way n target
      | none => []

/-- What `fs::read_to_string` gives. -/
inductive Reading where
  | text (t : Text)
  | missing
  | failed
  deriving DecidableEq

/-- What a file reads as. -/
def reading : Option Node → Reading
  | some (.text t) => .text t
  | some _ => .failed
  | none => .missing

/-- `fs::read_to_string`. -/
def Files.read (files : Files) (p : Path) : Reading :=
  match files.follow maxLinks p with
  | some q => reading (files.lookup q)
  -- Too many links.
  | none => .failed

/-- `fs::read_to_string`, where it does not fail. -/
def Files.text? (files : Files) (p : Path) : Option Text :=
  match files.read p with
  | .text t => some t
  | _ => none

/-- The text after a prefix. -/
def stripPrefix (start t : Text) : Option Text :=
  if start.isPrefixOf t then some (t.drop start.length) else none

/-- Whether the text starts with the marker line. -/
def isMarked (t : Text) : Bool :=
  (lines t).head? = some generatorMarker

/-- Who generated a file: `none` if psbox did not write it, `some none` for a psbox file without
an `@sandbox` line, else the sandbox it names. -/
def owner (files : Files) (p : Path) : Option (Option Text) :=
  match files.text? p with
  | none => none
  | some t => if isMarked t then some ((lines t)[1]?.bind (stripPrefix sandboxTag)) else none

def isGenerated (files : Files) (p : Path) : Bool :=
  (owner files p).isSome

/-- Whether there is a file at the path, or where a link there leads. -/
def isFile (files : Files) (p : Path) : Bool :=
  match (files.follow maxLinks p).bind fun q => files.lookup q with
  | some (.text _) => true
  | some .unreadable => true
  | _ => false

/-! ## Section 2: Following Links -/

section Links

variable {files files' : Files} {p q a : Path} {n m : Nat} {t : Text}

private theorem link?_eq_some : files.link? p = some q ↔ files.lookup p = some (.link q) := by
  unfold Files.link?
  split
  · rename_i target hlookup
    simp [hlookup]
  · rename_i hnot
    simpa using fun h => hnot q h

theorem link?_congr (h : files'.lookup p = files.lookup p) : files'.link? p = files.link? p := by
  rw [Files.link?, Files.link?, h]

private theorem follow_of_link?_eq_none (h : files.link? p = none) (n : Nat) : files.follow n p = some p := by
  cases n with
  | zero => simp [Files.follow, h]
  | succ n => simp [Files.follow, h]

theorem way_of_link?_eq_none (h : files.link? p = none) (n : Nat) : files.way n p = [] := by
  cases n with
  | zero => rfl
  | succ n => simp [Files.way, h]

private theorem follow_succ (h : files.link? p = some q) : files.follow (n + 1) p = files.follow n q := by
  simp [Files.follow, h]

private theorem way_succ (h : files.link? p = some q) : files.way (n + 1) p = q :: files.way n q := by
  simp [Files.way, h]

/-- What is reached through some links is reached where more may be followed. -/
theorem follow_mono (h : files.follow n p = some q) (hle : n ≤ m) : files.follow m p = some q := by
  -- Induction over the number of links.
  induction n generalizing p m with
  | zero =>
      cases hlink : files.link? p with
      | none =>
          obtain rfl : p = q := by simpa [Files.follow, hlink] using h
          exact follow_of_link?_eq_none hlink m
      | some target => simp [Files.follow, hlink] at h
  | succ n ih =>
      obtain ⟨m, rfl⟩ : ∃ k, m = k + 1 := ⟨m - 1, by omega⟩
      cases hlink : files.link? p with
      | none =>
          obtain rfl : p = q := by simpa [Files.follow, hlink] using h
          exact follow_of_link?_eq_none hlink _
      | some target =>
          rw [follow_succ hlink] at h ⊢
          exact ih h (by omega)

/-- What a link leads to is on its way. -/
theorem mem_way_of_follow (h : files.follow n p = some q) : q ∈ p :: files.way n p := by
  -- Induction over the number of links.
  induction n generalizing p with
  | zero =>
      cases hlink : files.link? p with
      | none =>
          obtain rfl : p = q := by simpa [Files.follow, hlink] using h
          exact List.mem_cons_self
      | some target => simp [Files.follow, hlink] at h
  | succ n ih =>
      cases hlink : files.link? p with
      | none =>
          obtain rfl : p = q := by simpa [Files.follow, hlink] using h
          exact List.mem_cons_self
      | some target =>
          rw [follow_succ hlink] at h
          rw [way_succ hlink]
          exact List.mem_cons_of_mem _ (ih h)

/-- Where the files on the way are the same, so is what a path leads to. -/
theorem follow_congr (h : ∀ q ∈ p :: files.way n p, files'.lookup q = files.lookup q) :
    files'.follow n p = files.follow n p ∧ files'.way n p = files.way n p := by
  -- Induction over the number of links; each of them is the same in both.
  induction n generalizing p with
  | zero =>
      have hlink := link?_congr (h p List.mem_cons_self)
      exact ⟨by rw [Files.follow, Files.follow, hlink], rfl⟩
  | succ n ih =>
      have hlink := link?_congr (h p List.mem_cons_self)
      cases hp : files.link? p with
      | none =>
          rw [hp] at hlink
          rw [follow_of_link?_eq_none hp, follow_of_link?_eq_none hlink, way_of_link?_eq_none hp,
            way_of_link?_eq_none hlink]
          exact ⟨rfl, rfl⟩
      | some target =>
          rw [hp] at hlink
          rw [way_succ hp] at h
          obtain ⟨hfollow, hway⟩ := ih fun q hq => h q (List.mem_cons_of_mem _ hq)
          rw [follow_succ hp, follow_succ hlink, way_succ hp, way_succ hlink, hfollow, hway]
          exact ⟨rfl, rfl⟩

/-- A path on the way of a link is so many links after it. -/
theorem follow_of_mem_way (h : a ∈ files.way n p) :
    ∃ k, k < n ∧ (∀ m, files.follow (m + k + 1) p = files.follow m a) ∧
      ∀ m ≤ k, files.follow m p = none := by
  -- Induction over the number of links.
  induction n generalizing p with
  | zero => cases h
  | succ n ih =>
      cases hlink : files.link? p with
      | none =>
          rw [way_of_link?_eq_none hlink] at h
          cases h
      | some target =>
          have hzero : files.follow 0 p = none := by simp [Files.follow, hlink]
          rw [way_succ hlink, List.mem_cons] at h
          rcases h with rfl | h
          · exact ⟨0, n.succ_pos, fun m => follow_succ hlink, fun m hm => by rwa [Nat.le_zero.mp hm]⟩
          · obtain ⟨k, hk, hfollow, hnone⟩ := ih h
            refine ⟨k + 1, by omega, fun m => (follow_succ hlink).trans (hfollow m), fun m hm => ?_⟩
            cases m with
            | zero => exact hzero
            | succ m => exact (follow_succ hlink).trans (hnone m (by omega))

/-- A path that is on its own way leads nowhere. -/
theorem follow_of_mem_own_way (h : p ∈ files.way m p) (n : Nat) : files.follow n p = none := by
  obtain ⟨k, _, hfollow, hnone⟩ := follow_of_mem_way h
  -- It comes round to itself after so many links, however many may be followed.
  induction n using Nat.strong_induction_on with
  | _ n ih =>
      -- Fewer than it takes to come round, or more.
      by_cases hn : n ≤ k
      · exact hnone n hn
      · obtain ⟨j, rfl⟩ : ∃ j, n = j + k + 1 := ⟨n - k - 1, by omega⟩
        exact (hfollow j).trans (ih j (by omega))

/-- A file on the way of a link is what the link leads to. -/
theorem follow_eq_of_mem_way (h : a ∈ files.way n p) (ha : files.link? a = none) :
    files.follow n p = some a := by
  obtain ⟨k, hk, hfollow, _⟩ := follow_of_mem_way h
  obtain ⟨m, rfl⟩ : ∃ m, n = m + k + 1 := ⟨n - k - 1, by omega⟩
  exact (hfollow m).trans (follow_of_link?_eq_none ha m)

/-- A path leads to the file that is written over one on its way. -/
theorem follow_cut (h : a ∈ files.way n p)
    (hsame : ∀ q, files.lookup q ≠ none → q ≠ a → files'.lookup q = files.lookup q)
    (ha : files'.link? a = none) : files'.follow n p = some a := by
  induction n generalizing p with
  | zero => cases h
  | succ n ih =>
      -- The path is the one that is written over, or a link before it.
      by_cases hpa : p = a
      · rw [hpa]
        exact follow_of_link?_eq_none ha _
      · cases hlink : files.link? p with
        | none =>
            rw [way_of_link?_eq_none hlink] at h
            cases h
        | some target =>
            have hlookup := link?_eq_some.mp hlink
            have hlink' : files'.link? p = some target :=
              link?_eq_some.mpr ((hsame p (by simp [hlookup]) hpa).trans hlookup)
            rw [follow_succ hlink']
            rw [way_succ hlink, List.mem_cons] at h
            rcases h with rfl | h
            · exact follow_of_link?_eq_none ha n
            · exact ih h

/-! ## Section 3: Reading -/

theorem read_of_link?_eq_none (h : files.link? p = none) : files.read p = reading (files.lookup p) := by
  rw [Files.read, follow_of_link?_eq_none h]

/-- A path that is no link reads as it did while it is the same itself. -/
theorem read_own (h : files.link? p = none) (hsame : files'.lookup p = files.lookup p) :
    files'.read p = files.read p := by
  rw [read_of_link?_eq_none h, read_of_link?_eq_none ((link?_congr hsame).trans h), hsame]

theorem text?_eq_some : files.text? p = some t ↔ files.read p = .text t := by
  unfold Files.text?
  split
  · rename_i t' ht'
    simp [ht']
  · rename_i hnot
    simpa using fun h => hnot t h

theorem read_congr (h : ∀ q ∈ p :: files.way maxLinks p, files'.lookup q = files.lookup q) :
    files'.read p = files.read p := by
  rw [Files.read, Files.read, (follow_congr h).1]
  -- What is reached is on the way, so it is the same.
  cases hfollow : files.follow maxLinks p with
  | none => rfl
  | some q =>
      dsimp only
      rw [h q (mem_way_of_follow hfollow)]

theorem owner_congr (h : files'.read p = files.read p) : owner files' p = owner files p := by
  rw [owner, owner, Files.text?, Files.text?, h]

/-- A link reads as what is on its way does, or not at all where there are too many. -/
theorem read_of_mem_way (h : a ∈ files.way maxLinks p) :
    files.read p = files.read a ∨ files.read p = .failed := by
  obtain ⟨k, hk, hfollow, _⟩ := follow_of_mem_way h
  obtain ⟨m, hm⟩ : ∃ m, maxLinks = m + k + 1 := ⟨maxLinks - k - 1, by omega⟩
  have hp : files.follow maxLinks p = files.follow m a := by rw [hm, hfollow]
  -- Behind it there may be too many links.
  cases hma : files.follow m a with
  | none => exact Or.inr (by rw [Files.read, hp, hma])
  | some q =>
      refine Or.inl ?_
      rw [Files.read, Files.read, hp, hma, follow_mono hma (by omega : m ≤ maxLinks)]

end Links

end Psbox.Install
