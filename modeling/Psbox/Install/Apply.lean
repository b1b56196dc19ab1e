import Psbox.Install.Generate

/-!
# Installing Entries

`apply` of `install.rs`: writes the generated entries, and removes those that psbox wrote and that
are no longer configured.

Each step changes one path alone. The file that psbox wrote for a sandbox that failed is kept exactly
where no other sandbox generates an entry for it (`protected_kept_iff`).
-/

namespace Psbox.Install

open Psbox.Foundations Psbox.Desktop

/-! ## Section 1: A Run -/

structure Report where
  /-- Entries written where there was no file. -/
  added : List Path := []
  /-- psbox files rewritten with new content. -/
  updated : List Path := []
  unchanged : List Path := []
  removed : List Path := []
  /-- Files in the way that psbox did not write. -/
  skipped : List Path := []
  deriving DecidableEq

inductive IoError where
  | write (path : Path)
  | remove (path : Path)
  deriving DecidableEq

/-- Which files cannot be written or removed. -/
structure Faults where
  write : Path → Bool
  remove : Path → Bool

def noFaults : Faults where
  write _ := false
  remove _ := false

/-- The files after a step, with its report or the error that ends the run. -/
abbrev Outcome := Except (Files × IoError) (Files × Report)

/-- What becomes of the file of an entry. -/
inductive Verdict where
  | unchanged
  | skipped
  | updated
  | added
  deriving DecidableEq

def verdict (files : Files) (g : Generated) : Verdict :=
  match files.read g.path with
  | .text t =>
      if t = g.body then .unchanged
      else if isMarked t then .updated
      else .skipped
  -- Only a missing file is free to write. A link that leads to none reads as one.
  | .failed => .skipped
  | .missing => .added

def Report.note (r : Report) (p : Path) : Verdict → Report
  | .unchanged => { r with unchanged := r.unchanged ++ [p] }
  | .skipped => { r with skipped := r.skipped ++ [p] }
  | .updated => { r with updated := r.updated ++ [p] }
  | .added => { r with added := r.added ++ [p] }

/-- Whether the file is written. -/
def Verdict.writes : Verdict → Bool
  | .updated => true
  | .added => true
  | _ => false

/-- One entry. -/
def applyEntry (dryRun : Bool) (faults : Faults) (s : Files × Report) (g : Generated) : Outcome :=
  let v := verdict s.1 g
  let r := s.2.note g.path v
  if v.writes && !dryRun then
    if faults.write g.path then .error (s.1, .write g.path)
    else .ok (s.1.insert g.path (.text g.body), r)
  else .ok (s.1, r)

/-- The paths in a directory. -/
def children (files : Files) (dir : Path) : List Path :=
  files.keys.filter fun p => p ≠ [] && p.dropLast = dir

def hasDesktopExtension (p : Path) : Bool :=
  match p.getLast? with
  | some name => desktopExtension.isSuffixOf name && desktopExtension.length < name.length
  | none => false

/-- Whether psbox wrote the file for a sandbox that is not among those that failed. -/
def isStale (files : Files) (failedSandboxes : List Text) (p : Path) : Bool :=
  match owner files p with
  | some (some sandbox) => !failedSandboxes.contains sandbox
  | some none => true
  | none => false

/-- Whether the file is one to remove, where it is stale. -/
def isSurplus (g : Generation) (p : Path) : Bool :=
  hasDesktopExtension p && !(g.entries.any (·.path = p)) && !g.failed.contains p

/-- One file of a directory. -/
def removeStale (g : Generation) (failedSandboxes : List Text) (dryRun : Bool) (faults : Faults)
    (s : Files × Report) (p : Path) : Outcome :=
  if isSurplus g p && isStale s.1 failedSandboxes p then
    let r := { s.2 with removed := s.2.removed ++ [p] }
    if dryRun then .ok (s.1, r)
    else if faults.remove p then .error (s.1, .remove p)
    else .ok (s.1.erase p, r)
  else .ok s

def sweep (g : Generation) (failedSandboxes : List Text) (dryRun : Bool) (faults : Faults)
    (s : Files × Report) (dir : Path) : Outcome :=
  (children s.1 dir).foldlM (removeStale g failedSandboxes dryRun faults) s

/-- Writes generated entries and removes psbox-written entries that are no longer configured. -/
def apply (g : Generation) (failedSandboxes : List Text) (dirs : Dirs) (dryRun : Bool)
    (faults : Faults) (files : Files) : Outcome := do
  let s ← g.entries.foldlM (applyEntry dryRun faults) (files, {})
  [dirs.applications, dirs.autostart].foldlM (sweep g failedSandboxes dryRun faults) s

/-- The files that a run leaves, also where it fails. -/
def filesAfter : Outcome → Files
  | .ok s => s.1
  | .error e => e.1

/-! ## Section 2: Steps -/

/-- What every step keeps, a run keeps, also when it fails. -/
theorem filesAfter_foldlM {β : Type} {f : Files × Report → β → Outcome} {I : Files → Prop}
    {l : List β} {s : Files × Report}
    (hstep : ∀ s, ∀ x ∈ l, I s.1 → I (filesAfter (f s x))) (h : I s.1) :
    I (filesAfter (l.foldlM f s)) := by
  induction l generalizing s with
  | nil => exact h
  | cons x l ih =>
      have hx := hstep s x List.mem_cons_self h
      rw [List.foldlM_cons]
      -- A step that fails ends the loop, with the files as they are.
      cases hfx : f s x with
      | error e =>
          rw [hfx] at hx
          exact hx
      | ok s' =>
          rw [hfx] at hx
          exact ih (fun s y hy => hstep s y (List.mem_cons_of_mem _ hy)) hx

theorem mem_children {files : Files} {dir p : Path} : p ∈ children files dir ↔
    p ∈ files.keys ∧ p ≠ [] ∧ p.dropLast = dir := by
  simp [children]

theorem children_nodup (files : Files) (dir : Path) : (children files dir).Nodup :=
  files.keys_nodup.filter _

/-- What the steps of both loops keep, a run keeps. -/
theorem filesAfter_apply {g : Generation} {failedSandboxes : List Text} {dirs : Dirs}
    {dryRun : Bool} {faults : Faults} {files : Files} {I : Files → Prop} (h : I files)
    (hentry : ∀ s, ∀ x ∈ g.entries, I s.1 → I (filesAfter (applyEntry dryRun faults s x)))
    (hremove : ∀ s p, p ≠ [] → p.dropLast ∈ [dirs.applications, dirs.autostart] →
      I s.1 → I (filesAfter (removeStale g failedSandboxes dryRun faults s p))) :
    I (filesAfter (apply g failedSandboxes dirs dryRun faults files)) := by
  have hentries := filesAfter_foldlM (s := (files, {})) hentry h
  rw [apply]
  -- The entries may end the run, and then nothing is removed.
  cases hs : g.entries.foldlM (applyEntry dryRun faults) (files, {}) with
  | error e =>
      rw [hs] at hentries
      exact hentries
  | ok s =>
      rw [hs] at hentries
      refine filesAfter_foldlM (fun s dir hdir hI => ?_) hentries
      refine filesAfter_foldlM (fun s p hp => ?_) hI
      obtain ⟨_, hne, hplace⟩ := mem_children.mp hp
      exact hremove s p hne (hplace ▸ hdir)

/-- An entry's step changes its own file alone, and only where psbox is free to write. -/
theorem lookup_applyEntry (dryRun : Bool) (faults : Faults) (s : Files × Report) (x : Generated)
    (p : Path) :
    (filesAfter (applyEntry dryRun faults s x)).lookup p = s.1.lookup p ∨
      x.path = p ∧ (verdict s.1 x).writes ∧
        (filesAfter (applyEntry dryRun faults s x)).lookup p = some (.text x.body) := by
  rw [applyEntry]
  split
  · rename_i hwrites
    split
    · exact Or.inl rfl
    · by_cases hp : x.path = p
      · refine Or.inr ⟨hp, by simpa using (Bool.and_eq_true_iff.mp hwrites).1, ?_⟩
        rw [← hp]
        exact AList.lookup_insert _
      · exact Or.inl (AList.lookup_insert_ne (Ne.symm hp))
  · exact Or.inl rfl

/-- A removal takes away its own file alone, and only a stale one. -/
theorem lookup_removeStale (g : Generation) (failedSandboxes : List Text) (dryRun : Bool)
    (faults : Faults) (s : Files × Report) (q p : Path) :
    (filesAfter (removeStale g failedSandboxes dryRun faults s q)).lookup p = s.1.lookup p ∨
      q = p ∧ isSurplus g p ∧ isStale s.1 failedSandboxes p ∧
        (filesAfter (removeStale g failedSandboxes dryRun faults s q)).lookup p = none := by
  rw [removeStale]
  split
  · rename_i hstale
    rw [Bool.and_eq_true] at hstale
    dsimp only
    split
    · exact Or.inl rfl
    · split
      · exact Or.inl rfl
      · by_cases hp : q = p
        · subst hp
          exact Or.inr ⟨rfl, hstale.1, hstale.2, AList.lookup_erase q s.1⟩
        · exact Or.inl (AList.lookup_erase_ne (Ne.symm hp))
  · exact Or.inl rfl

theorem verdict_congr {files files' : Files} {x : Generated}
    (h : files'.read x.path = files.read x.path) : verdict files' x = verdict files x := by
  rw [verdict, verdict, h]

theorem isStale_congr {files files' : Files} {p : Path} (h : files'.read p = files.read p)
    (failedSandboxes : List Text) :
    isStale files' failedSandboxes p = isStale files failedSandboxes p := by
  rw [isStale, isStale, owner_congr h]

/-! ## Section 3: Where Files Stay -/

/-- The files are the same at the paths in `P`, and listed in the same order. -/
structure SameOn (P : Path → Bool) (files files' : Files) : Prop where
  keys : files'.keys.filter P = files.keys.filter P
  lookup : ∀ p, P p → files'.lookup p = files.lookup p

section SameOn

variable {P : Path → Bool} {files files₁ files' : Files} {a : Path}

theorem SameOn.refl (files : Files) : SameOn P files files :=
  ⟨rfl, fun _ _ => rfl⟩

theorem SameOn.trans (h : SameOn P files files₁) (h' : SameOn P files₁ files') :
    SameOn P files files' :=
  ⟨h'.keys.trans h.keys, fun p hp => (h'.lookup p hp).trans (h.lookup p hp)⟩

private theorem filter_erase {α : Type} [DecidableEq α] {P : α → Bool} {a : α} (ha : P a = false)
    (l : List α) : (l.erase a).filter P = l.filter P := by
  induction l with
  | nil => rfl
  | cons p l ih =>
      rw [List.erase_cons]
      by_cases hp : p = a
      · simp [hp, ha]
      · have hne : (p == a) = false := by simpa using hp
        simp only [hne, Bool.false_eq_true, if_false, List.filter_cons, ih]

private theorem sameOn_insert (ha : P a = false) (node : Node) : SameOn P files (files.insert a node) := by
  refine ⟨?_, fun p hp => AList.lookup_insert_ne ?_⟩
  · rw [AList.keys_insert, List.filter_cons_of_neg (by simp [ha]), filter_erase ha]
  · rintro rfl
    rw [ha] at hp
    cases hp

theorem sameOn_erase (ha : P a = false) : SameOn P files (files.erase a) := by
  refine ⟨?_, fun p hp => AList.lookup_erase_ne ?_⟩
  · rw [AList.keys_erase, filter_erase ha]
  · rintro rfl
    rw [ha] at hp
    cases hp

end SameOn

section Loops

variable {g : Generation} {failedSandboxes : List Text} {dirs : Dirs} {dryRun : Bool}
  {faults : Faults} {files : Files} {s s' : Files × Report} {x : Generated} {p : Path}

theorem applyEntry_eq_ok (h : applyEntry dryRun faults s x = .ok s') :
    s'.2 = s.2.note x.path (verdict s.1 x) ∧
      (s'.1 = s.1 ∨ dryRun = false ∧ s'.1 = s.1.insert x.path (.text x.body)) ∧
      (dryRun = false → s'.1.lookup x.path =
        if (verdict s.1 x).writes then some (.text x.body) else s.1.lookup x.path) := by
  rw [applyEntry] at h
  split at h
  · rename_i hwrites
    obtain ⟨hwrites, hdry⟩ : (verdict s.1 x).writes ∧ dryRun = false := by simpa using hwrites
    split at h
    · cases h
    · obtain rfl := Except.ok.inj h
      refine ⟨rfl, Or.inr ⟨hdry, rfl⟩, fun _ => ?_⟩
      rw [if_pos hwrites]
      exact AList.lookup_insert _
  · rename_i hnot
    obtain rfl := Except.ok.inj h
    refine ⟨rfl, Or.inl rfl, fun hdry => ?_⟩
    rw [if_neg]
    simpa [hdry] using hnot

theorem isSurplus_of_mem (hx : x ∈ g.entries) : isSurplus g x.path = false := by
  have : g.entries.any (·.path = x.path) := List.any_eq_true.mpr ⟨x, hx, by simp⟩
  simp [isSurplus, this]

/-- The entries of a run change their own files alone. -/
theorem sameOn_entries {l : List Generated} (h : l.foldlM (applyEntry dryRun faults) s = .ok s')
    {P : Path → Bool} (hP : ∀ x ∈ l, P x.path = false) : SameOn P s.1 s'.1 := by
  -- Induction over the entries, each of which changes its own file.
  induction l generalizing s with
  | nil =>
      obtain rfl := Except.ok.inj h
      exact SameOn.refl _
  | cons x l ih =>
      obtain ⟨hPx, hP⟩ := List.forall_mem_cons.mp hP
      rw [List.foldlM_cons] at h
      obtain ⟨s₁, hs₁, h⟩ := bind_eq_ok h
      have hsame : SameOn P s.1 s₁.1 := by
        rcases (applyEntry_eq_ok hs₁).2.1 with heq | ⟨_, heq⟩
        · rw [heq]
          exact SameOn.refl _
        · rw [heq]
          exact sameOn_insert hPx _
      exact hsame.trans (ih h hP)

/-- Where no two entries are one file, each is decided with its file as it was. -/
theorem lookup_entry {l : List Generated} (hdistinct : (l.map Generated.path).Nodup)
    (h : l.foldlM (applyEntry false faults) s = .ok s') (hx : x ∈ l) :
    ∃ (before : List Generated) (s₁ : Files × Report), (∀ y ∈ before, y ∈ l) ∧
      before.foldlM (applyEntry false faults) s = .ok s₁ ∧ s₁.1.lookup x.path = s.1.lookup x.path ∧
      s'.1.lookup x.path =
        if (verdict s₁.1 x).writes then some (.text x.body) else s.1.lookup x.path := by
  -- Induction over the entries; an entry's file is not among those of the others.
  induction l generalizing s with
  | nil => cases hx
  | cons y l ih =>
      rw [List.map_cons, List.nodup_cons] at hdistinct
      rw [List.foldlM_cons] at h
      obtain ⟨s₁, hs₁, hrest⟩ := bind_eq_ok h
      obtain ⟨_, hfiles₁, hown⟩ := applyEntry_eq_ok hs₁
      have hne : ∀ z ∈ l, z.path ≠ y.path := fun z hz heq =>
        hdistinct.1 (heq ▸ List.mem_map_of_mem hz)
      -- The entry is the first one, or among the others.
      rcases List.mem_cons.mp hx with rfl | hx
      · have hkept : SameOn (fun p => p = x.path) s₁.1 s'.1 :=
          sameOn_entries hrest fun z hz => by simpa using hne z hz
        exact ⟨[], s, by simp, rfl, rfl, (hkept.lookup x.path (by simp)).trans (hown rfl)⟩
      · have hkept : s₁.1.lookup x.path = s.1.lookup x.path := by
          rcases hfiles₁ with heq | ⟨_, heq⟩
          · rw [heq]
          · rw [heq]
            exact AList.lookup_insert_ne (hne x hx)
        obtain ⟨before, s₂, hmem, hbefore, hfirst, hlast⟩ := ih hdistinct.2 hrest hx
        refine ⟨y :: before, s₂, fun z hz => ?_, ?_, hfirst.trans hkept, by rw [hlast, hkept]⟩
        · rcases List.mem_cons.mp hz with rfl | hz
          · exact List.mem_cons_self
          · exact List.mem_cons_of_mem _ (hmem z hz)
        · rw [List.foldlM_cons]
          exact bind_eq_ok_iff.mpr ⟨s₁, hs₁, hbefore⟩

/-- A run that does not fail, by its loops. -/
structure Loops (g : Generation) (failedSandboxes : List Text) (dirs : Dirs) (dryRun : Bool)
    (faults : Faults) (files : Files) (s' s₁ s₂ : Files × Report) : Prop where
  entries : g.entries.foldlM (applyEntry dryRun faults) (files, {}) = .ok s₁
  applications : (children s₁.1 dirs.applications).foldlM
    (removeStale g failedSandboxes dryRun faults) s₁ = .ok s₂
  autostart : (children s₂.1 dirs.autostart).foldlM
    (removeStale g failedSandboxes dryRun faults) s₂ = .ok s'

theorem loops_of_apply (h : apply g failedSandboxes dirs dryRun faults files = .ok s') :
    ∃ s₁ s₂, Loops g failedSandboxes dirs dryRun faults files s' s₁ s₂ := by
  obtain ⟨s₁, hs₁, h⟩ := bind_eq_ok h
  rw [List.foldlM_cons] at h
  obtain ⟨s₂, hs₂, h⟩ := bind_eq_ok h
  rw [List.foldlM_cons] at h
  obtain ⟨s₃, hs₃, h⟩ := bind_eq_ok h
  obtain rfl := Except.ok.inj h
  exact ⟨s₁, s₂, hs₁, hs₂, hs₃⟩

/-- Removals leave files that are not surplus. -/
theorem lookup_sweep {l : List Path} (hp : isSurplus g p = false)
    (h : l.foldlM (removeStale g failedSandboxes dryRun faults) s = .ok s') :
    s'.1.lookup p = s.1.lookup p := by
  have hkept := filesAfter_foldlM (f := removeStale g failedSandboxes dryRun faults) (l := l) (s := s)
    (I := fun files' => files'.lookup p = s.1.lookup p) (fun s₁ q _ hs₁ => ?_) rfl
  · rwa [h] at hkept
  -- What was removed is surplus.
  · rcases lookup_removeStale g failedSandboxes dryRun faults s₁ q p with heq | ⟨_, hsurplus, _, _⟩
    · exact heq.trans hs₁
    · rw [hp] at hsurplus
      cases hsurplus

/-- A run where nothing that it does can fail. -/
theorem exists_run (g : Generation) (failedSandboxes : List Text) (dirs : Dirs) (files : Files)
    (dryRun : Bool) (faults : Faults)
    (hwrite : ∀ p, dryRun = false → faults.write p = false)
    (hremove : ∀ p, dryRun = false → faults.remove p = false) :
    ∃ s, apply g failedSandboxes dirs dryRun faults files = .ok s := by
  -- A step fails only where it writes.
  have hentry : ∀ s x, ∃ s', applyEntry dryRun faults s x = .ok s' := by
    intro s x
    rw [applyEntry]
    split
    · rename_i hwrites
      have hdry : dryRun = false := by simpa using (Bool.and_eq_true_iff.mp hwrites).2
      simp [hwrite x.path hdry]
    · exact ⟨_, rfl⟩
  have hremoval : ∀ s p, ∃ s', removeStale g failedSandboxes dryRun faults s p = .ok s' := by
    intro s p
    rw [removeStale]
    split
    -- A removal fails only where it removes.
    · cases dryRun with
      | true => exact ⟨_, rfl⟩
      | false => simp [hremove p rfl]
    · exact ⟨_, rfl⟩
  obtain ⟨s₁, hs₁⟩ := exists_foldlM hentry g.entries (files, {})
  obtain ⟨s, hs⟩ := exists_foldlM (fun s dir => exists_foldlM hremoval (children s.1 dir) s)
    [dirs.applications, dirs.autostart] s₁
  exact ⟨s, bind_eq_ok_iff.mpr ⟨s₁, hs₁, hs⟩⟩

end Loops

/-! ## Section 4: Files of Sandboxes That Failed -/

/-- The file that psbox wrote for a sandbox whose configuration failed, or whose entry for the file
could not be built. -/
structure Protected (g : Generation) (failedSandboxes : List Text) (files : Files) (p : Path)
    (t : Text) : Prop where
  text : files.lookup p = some (.text t)
  owned : ∃ s, owner files p = some (some s) ∧ (s ∈ failedSandboxes ∨ g.Unbuilt s p)

section Protection

variable {g : Generation} {failedSandboxes : List Text} {dirs : Dirs} {dryRun : Bool}
  {faults : Faults} {files : Files} {p : Path} {t : Text}

theorem link?_of_text (h : files.lookup p = some (.text t)) : files.link? p = none := by
  rw [Files.link?, h]

theorem read_of_text (h : files.lookup p = some (.text t)) : files.read p = .text t := by
  rw [read_of_link?_eq_none (link?_of_text h), h]
  rfl

/-- Such a file is never removed, and an entry that is the same is not written. -/
theorem lookup_of_protected (h : Protected g failedSandboxes files p t)
    (hsame : ∀ x ∈ g.entries, x.path = p → x.body = t) :
    (filesAfter (apply g failedSandboxes dirs dryRun faults files)).lookup p = files.lookup p := by
  refine filesAfter_apply (I := fun files' => files'.lookup p = files.lookup p) rfl ?_ ?_
  · intro s x hx hs
    -- A step that writes has the file of a generated entry.
    rcases lookup_applyEntry dryRun faults s x p with heq | ⟨rfl, hwrites, _⟩
    · exact heq.trans hs
    · rw [verdict, read_of_text (hs.trans h.text)] at hwrites
      simp [hsame x hx rfl, Verdict.writes] at hwrites
  · intro s q _ _ hs
    -- A removal takes what is surplus and stale, and the owner of this file failed.
    rcases lookup_removeStale g failedSandboxes dryRun faults s q p with heq | ⟨_, hsurplus, hstale, _⟩
    · exact heq.trans hs
    · obtain ⟨owning, howner, hor⟩ := h.owned
      rw [isStale, owner_congr (read_own (link?_of_text h.text) hs), howner] at hstale
      rcases hor with hfailed | hunbuilt
      · simp [hfailed] at hstale
      -- The path is among those that failed, and such a file is not surplus.
      · have := failed_of_unbuilt hunbuilt
        simp [isSurplus, this] at hsurplus

private theorem isMarked_of_owner {o : Option Text} (howner : owner files p = some o)
    (htext : files.lookup p = some (.text t)) : isMarked t := by
  rw [owner, text?_eq_some.mpr (read_of_text htext)] at howner
  by_contra hnot
  simp [hnot] at howner

/-- The files of sandboxes that failed are left alone exactly when no other sandbox generates
another entry for one of them. -/
theorem protected_kept_iff (g : Generation) (failedSandboxes : List Text) (dirs : Dirs)
    (files : Files) :
    (∀ dryRun faults p t, Protected g failedSandboxes files p t →
      (filesAfter (apply g failedSandboxes dirs dryRun faults files)).lookup p = files.lookup p) ↔
      ∀ p t, Protected g failedSandboxes files p t → ∀ x ∈ g.entries, x.path = p → x.body = t := by
  constructor
  · rintro h p t hp x hx rfl
    obtain ⟨s, hs⟩ := exists_run g failedSandboxes dirs files
      false noFaults (fun _ _ => rfl) fun _ _ => rfl
    obtain ⟨s₁, s₂, hloops⟩ := loops_of_apply hs
    -- A run without faults of this entry alone.
    have hkept := h false noFaults x.path t hp
    rw [hs] at hkept
    have hsurplus := isSurplus_of_mem hx
    obtain ⟨_, s₀, _, _, hfirst, hown⟩ := lookup_entry g.distinct hloops.entries hx
    obtain ⟨_, howner, _⟩ := hp.owned
    have hmarked := isMarked_of_owner howner hp.text
    by_contra hne
    have hwrites : (verdict s₀.1 x).writes := by
      rw [verdict, read_of_text (hfirst.trans hp.text)]
      simp [Ne.symm hne, hmarked, Verdict.writes]
    rw [if_pos hwrites, ← lookup_sweep hsurplus hloops.applications,
      ← lookup_sweep hsurplus hloops.autostart] at hown
    -- What is there afterwards is the entry, which is not the text that was there.
    have : some (Node.text x.body) = some (Node.text t) := hown.symm.trans (hkept.trans hp.text)
    exact hne (Node.text.inj (Option.some.inj this))
  · exact fun h dryRun faults p t hp => lookup_of_protected hp (h p t hp)

end Protection

def exampleDirs : Dirs :=
  Dirs.forHost ["data".toList] ["config".toList] [] []

/-- The file of the sandbox `alpha`. -/
def exampleFiles : Files :=
  AList.singleton (exampleDirs.applications ++ ["shared.desktop".toList])
    (.text "# @generator psbox\n# @sandbox alpha\n[Desktop Entry]\n".toList)

/-- What is generated for the sandbox `beta`. -/
def exampleGeneration : Generation :=
  generate exampleFiles
    [⟨"beta".toList, [⟨"hide".toList, by decide, .suppress .application "shared".toList⟩]⟩]
    exampleDirs "/usr/bin/psbox".toList

/-- The configuration of `alpha` failed, and `beta` takes its file. -/
theorem not_protected_kept : ¬∀ g failedSandboxes dirs files dryRun faults p t,
    Protected g failedSandboxes files p t →
      (filesAfter (apply g failedSandboxes dirs dryRun faults files)).lookup p = files.lookup p := by
  intro h
  have hkept := h exampleGeneration ["alpha".toList] exampleDirs exampleFiles false noFaults
    (exampleDirs.applications ++ ["shared.desktop".toList])
    "# @generator psbox\n# @sandbox alpha\n[Desktop Entry]\n".toList
    ⟨by decide, "alpha".toList, by decide +kernel, Or.inl (by decide)⟩
  exact absurd hkept (by decide)

end Psbox.Install
