import Psbox.Install.Apply

/-!
# Installing Again

What psbox did not write stays as it is; a second run has nothing to do; and a dry run reports what
a real one does. A link under the name of an entry can break each of these, since a run decides by
what it reads there, through the link, and acts on the name: `install_steady_iff` says for which
directories no run does.

In such directories the names that a run changes are not on the way of any link that it looks at
(`read_kept`), so that what a run reports can be told from the files there were
(`report_of_apply`).
-/

namespace Psbox.Install

open Psbox.Foundations Psbox.Desktop

/-! ## Section 1: What psbox Did Not Write -/

/-- A file that is there, and does not start with the marker line. -/
def Foreign (files : Files) (p : Path) : Prop :=
  files.lookup p ≠ none ∧ ∀ t, files.text? p = some t → ¬isMarked t

/-- No link under the name of an entry leads to nothing, and none leads to a file that psbox wrote
by way of the name of another entry. -/
structure LinksHarmless (dirs : Dirs) (files : Files) : Prop where
  leads : ∀ p, dirs.IsEntry p → files.lookup p ≠ none → files.read p ≠ .missing
  foreign : ∀ p, dirs.IsEntry p → ∀ a ∈ files.way maxLinks p, dirs.IsEntry a →
    ∀ t, files.text? a = some t → ¬isMarked t

/-- Only names of entries are changed, where psbox wrote the file or there was none; and what is
there afterwards is no link. -/
def Kept (dirs : Dirs) (files files' : Files) : Prop :=
  ∀ q, files'.lookup q = files.lookup q ∨
    dirs.IsEntry q ∧ ¬Foreign files q ∧ files'.link? q = none

section Kept

variable {dirs : Dirs} {files files₁ files' : Files} {p : Path}

theorem Kept.refl (files : Files) : Kept dirs files files :=
  fun _ => Or.inl rfl

/-- What is on the way of a link stays: it is no file that psbox wrote, and it is there. -/
theorem way_kept (h : LinksHarmless dirs files) (hkept : Kept dirs files files')
    (hp : dirs.IsEntry p) : ∀ a ∈ files.way maxLinks p, files'.lookup a = files.lookup a := by
  intro a ha
  -- The path itself was changed, which needs a free name or a file of psbox's own.
  rcases hkept a with heq | ⟨hentry, hnot, _⟩
  · exact heq
  by_cases hthere : files.lookup a = none
  -- A name that is free is no link, so nothing is behind it.
  · have hlink : files.link? a = none := by rw [Files.link?, hthere]
    have hmissing : files.read p = .missing := by
      rw [Files.read, follow_eq_of_mem_way ha hlink]
      simp [reading, hthere]
    have hlookup : files.lookup p ≠ none := by
      intro hnone
      rw [way_of_link?_eq_none (by rw [Files.link?, hnone])] at ha
      cases ha
    exact absurd hmissing (h.leads p hp hlookup)
  · exact absurd ⟨hthere, h.foreign p hp a ha hentry⟩ hnot

/-- Where a name is the same, so is what is read there. -/
theorem read_kept (h : LinksHarmless dirs files) (hkept : Kept dirs files files')
    (hp : dirs.IsEntry p) (hsame : files'.lookup p = files.lookup p) :
    files'.read p = files.read p :=
  read_congr (List.forall_mem_cons.mpr ⟨hsame, way_kept h hkept hp⟩)

private theorem foreign_congr (hsame : files'.lookup p = files.lookup p) (hread : files'.read p = files.read p) :
    Foreign files' p ↔ Foreign files p := by
  simp only [Foreign, Files.text?, hsame, hread]

/-- No link is made harmful. -/
theorem linksHarmless_kept (h : LinksHarmless dirs files) (hkept : Kept dirs files files') :
    LinksHarmless dirs files' := by
  refine ⟨fun p hp hthere => ?_, fun p hp a ha hentry t ht => ?_⟩
  · rcases hkept p with hsame | ⟨_, _, hlink⟩
    · rw [read_kept h hkept hp hsame]
      exact h.leads p hp (hsame ▸ hthere)
    · rw [read_of_link?_eq_none hlink]
      -- Where a file was written, the reading of it is a text.
      cases hlookup : files'.lookup p with
      | none => exact absurd hlookup hthere
      | some node => cases node <;> simp [reading]
  · rcases hkept p with hsame | ⟨_, _, hlink⟩
    · have hway := way_kept h hkept hp
      rw [(follow_congr (List.forall_mem_cons.mpr ⟨hsame, hway⟩)).2] at ha
      rw [Files.text?, read_kept h hkept hentry (hway a ha)] at ht
      exact h.foreign p hp a ha hentry t ht
    · rw [way_of_link?_eq_none hlink] at ha
      cases ha

theorem Kept.trans (h : LinksHarmless dirs files) (hkept : Kept dirs files files₁)
    (hkept' : Kept dirs files₁ files') : Kept dirs files files' := by
  intro q
  -- Changed by the second run, and by the first one or not.
  rcases hkept' q with hsame' | ⟨hentry, hnot, hlink⟩
  · rcases hkept q with hsame | ⟨hentry, hnot, hlink⟩
    · exact Or.inl (hsame'.trans hsame)
    · exact Or.inr ⟨hentry, hnot, (link?_congr hsame').trans hlink⟩
  · rcases hkept q with hsame | ⟨_, hnot', _⟩
    · rw [foreign_congr hsame (read_kept h hkept hentry hsame)] at hnot
      exact Or.inr ⟨hentry, hnot, hlink⟩
    · exact Or.inr ⟨hentry, hnot', hlink⟩

end Kept

/-! ## Section 2: What a Run Changes -/

section Steps

variable {g : Generation} {failedSandboxes : List Text} {dirs : Dirs} {dryRun : Bool}
  {faults : Faults} {files : Files} {s s' : Files × Report} {x : Generated} {p : Path}

private theorem isEntry_of_surplus (hsurplus : isSurplus g p) (hne : p ≠ [])
    (hplace : p.dropLast ∈ [dirs.applications, dirs.autostart]) : dirs.IsEntry p := by
  -- A surplus file has the extension, so its name is that of an entry.
  have hextension : hasDesktopExtension p := by
    simp only [isSurplus, Bool.and_eq_true] at hsurplus
    exact hsurplus.1.1
  rw [hasDesktopExtension, List.getLast?_eq_getLast_of_ne_nil hne] at hextension
  obtain ⟨hsuffix, _⟩ := Bool.and_eq_true_iff.mp hextension
  obtain ⟨id, hid⟩ := List.isSuffixOf_iff_suffix.mp hsuffix
  have hp : p = p.dropLast ++ [id ++ desktopExtension] := by
    rw [hid, List.dropLast_append_getLast hne]
  rcases List.mem_cons.mp hplace with hdir | hdir
  · exact ⟨.application, id, by rw [hp, hdir]; simp [Dirs.ofKind]⟩
  · exact ⟨.autostart, id, by rw [hp, List.mem_singleton.mp hdir]; simp [Dirs.ofKind]⟩

/-- What psbox may write over is a file that it wrote, or none. -/
theorem not_foreign_of_writes (h : LinksHarmless dirs files) (hx : dirs.IsEntry x.path)
    (hwrites : (verdict files x).writes) : ¬Foreign files x.path := by
  rintro ⟨hthere, hmarked⟩
  rw [verdict] at hwrites
  cases hread : files.read x.path with
  | text t =>
      have hnot := hmarked t (text?_eq_some.mpr hread)
      rw [hread] at hwrites
      -- The text is the entry's already, or another one that psbox wrote.
      by_cases hbody : t = x.body
      · simp [hbody, Verdict.writes] at hwrites
      · simp [hbody, hnot, Verdict.writes] at hwrites
  | missing => exact h.leads x.path hx hthere hread
  | failed =>
      rw [hread] at hwrites
      cases hwrites

private theorem not_foreign_of_stale (hstale : isStale files failedSandboxes p) : ¬Foreign files p := by
  rintro ⟨_, hmarked⟩
  rw [isStale, owner] at hstale
  cases ht : files.text? p with
  | none => simp [ht] at hstale
  | some t => simp [ht, hmarked t ht] at hstale

private theorem kept_applyEntry (h : LinksHarmless dirs s.1) (hx : dirs.IsEntry x.path) :
    Kept dirs s.1 (filesAfter (applyEntry dryRun faults s x)) := by
  intro q
  rcases lookup_applyEntry dryRun faults s x q with hsame | ⟨rfl, hwrites, hlookup⟩
  · exact Or.inl hsame
  · exact Or.inr ⟨hx, not_foreign_of_writes h hx hwrites, by rw [Files.link?, hlookup]⟩

private theorem kept_removeStale (hne : p ≠ []) (hplace : p.dropLast ∈ [dirs.applications, dirs.autostart]) :
    Kept dirs s.1 (filesAfter (removeStale g failedSandboxes dryRun faults s p)) := by
  intro q
  rcases lookup_removeStale g failedSandboxes dryRun faults s p q with
    hsame | ⟨rfl, hsurplus, hstale, hlookup⟩
  · exact Or.inl hsame
  · exact Or.inr ⟨isEntry_of_surplus hsurplus hne hplace, not_foreign_of_stale hstale,
      by rw [Files.link?, hlookup]⟩

/-- A run changes only what psbox wrote, whatever fails. -/
theorem kept_apply (h : LinksHarmless dirs files) (hg : g.Within dirs) :
    Kept dirs files (filesAfter (apply g failedSandboxes dirs dryRun faults files)) := by
  refine filesAfter_apply (Kept.refl files) (fun s x hx hkept => ?_) fun s p hne hplace hkept => ?_
  · exact hkept.trans h (kept_applyEntry (linksHarmless_kept h hkept) (hg x hx))
  · exact hkept.trans h (kept_removeStale hne hplace)

private theorem kept_entries {l : List Generated} (h : LinksHarmless dirs s.1)
    (hwithin : ∀ x ∈ l, dirs.IsEntry x.path) (hrun : l.foldlM (applyEntry dryRun faults) s = .ok s') :
    Kept dirs s.1 s'.1 := by
  have hkept := filesAfter_foldlM (f := applyEntry dryRun faults) (l := l) (s := s)
    (I := Kept dirs s.1) (fun s₁ x hx hkept => ?_) (Kept.refl s.1)
  · rwa [hrun] at hkept
  · exact hkept.trans h (kept_applyEntry (linksHarmless_kept h hkept) (hwithin x hx))

private theorem kept_removals {l : List Path} (h : LinksHarmless dirs s.1)
    (hwithin : ∀ p ∈ l, p ≠ [] ∧ p.dropLast ∈ [dirs.applications, dirs.autostart])
    (hrun : l.foldlM (removeStale g failedSandboxes dryRun faults) s = .ok s') :
    Kept dirs s.1 s'.1 := by
  have hkept := filesAfter_foldlM (f := removeStale g failedSandboxes dryRun faults) (l := l) (s := s)
    (I := Kept dirs s.1) (fun s₁ p hp hkept => ?_) (Kept.refl s.1)
  · rwa [hrun] at hkept
  · exact hkept.trans h (kept_removeStale (hwithin p hp).1 (hwithin p hp).2)

end Steps

/-! ## Section 3: What a Run Reports -/

/-- The files of a directory that a run removes. -/
def removals (g : Generation) (failedSandboxes : List Text) (files : Files) (dir : Path) : List Path :=
  (children files dir).filter fun p => isSurplus g p && isStale files failedSandboxes p

/-- What a run reports, told from the files that there were. -/
def expected (g : Generation) (failedSandboxes : List Text) (dirs : Dirs) (files : Files) : Report :=
  let r : Report := g.entries.foldl (fun r x => r.note x.path (verdict files x)) {}
  { r with
    removed := r.removed ++ removals g failedSandboxes files dirs.applications ++
      removals g failedSandboxes files dirs.autostart }

section Reports

variable {g : Generation} {failedSandboxes : List Text} {dirs : Dirs} {dryRun : Bool}
  {faults : Faults} {files files' : Files} {s s' : Files × Report} {x : Generated} {dir p : Path}

/-- A dry run does not fail, and changes nothing. -/
theorem apply_dryRun (g : Generation) (failedSandboxes : List Text) (dirs : Dirs) (faults : Faults)
    (files : Files) :
    apply g failedSandboxes dirs true faults files =
      .ok (files, expected g failedSandboxes dirs files) := by
  -- Entry by entry, none of which changes a file.
  have hentries : ∀ (l : List Generated) (r : Report),
      l.foldlM (applyEntry true faults) (files, r) =
        .ok (files, l.foldl (fun r x => r.note x.path (verdict files x)) r) := by
    intro l
    induction l with
    | nil => exact fun r => rfl
    | cons x l ih =>
        intro r
        rw [List.foldlM_cons]
        exact bind_eq_ok_iff.mpr ⟨_, by simp [applyEntry], ih _⟩
  -- File by file, none of which is removed.
  have hremovals : ∀ (l : List Path) (r : Report),
      l.foldlM (removeStale g failedSandboxes true faults) (files, r) =
        .ok (files, { r with removed := r.removed ++
          (l.filter fun p => isSurplus g p && isStale files failedSandboxes p) }) := by
    intro l
    induction l with
    | nil =>
        intro r
        rw [List.filter_nil, List.append_nil]
        rfl
    | cons p l ih =>
        intro r
        rw [List.foldlM_cons]
        by_cases hp : isSurplus g p && isStale files failedSandboxes p
        · refine bind_eq_ok_iff.mpr ⟨_, if_pos hp, ?_⟩
          simpa [hp] using ih { r with removed := r.removed ++ [p] }
        · refine bind_eq_ok_iff.mpr ⟨_, if_neg hp, ?_⟩
          simpa [hp] using ih r
  refine bind_eq_ok_iff.mpr ⟨_, hentries _ _, ?_⟩
  rw [List.foldlM_cons]
  refine bind_eq_ok_iff.mpr ⟨_, hremovals _ _, ?_⟩
  rw [List.foldlM_cons]
  exact bind_eq_ok_iff.mpr ⟨_, hremovals _ _, rfl⟩

/-- The entries of a run are reported as they were to begin with. -/
theorem report_entries {l : List Generated} (h : LinksHarmless dirs s.1)
    (hwithin : ∀ x ∈ l, dirs.IsEntry x.path) (hdistinct : (l.map Generated.path).Nodup)
    (hrun : l.foldlM (applyEntry false faults) s = .ok s') :
    s'.2 = l.foldl (fun r x => r.note x.path (verdict s.1 x)) s.2 := by
  -- Induction over the entries; those behind have files of their own, and so the same verdicts.
  induction l generalizing s with
  | nil =>
      obtain rfl := Except.ok.inj hrun
      rfl
  | cons x l ih =>
      rw [List.map_cons, List.nodup_cons] at hdistinct
      obtain ⟨hx, hwithin⟩ := List.forall_mem_cons.mp hwithin
      rw [List.foldlM_cons] at hrun
      obtain ⟨s₁, hs₁, hrest⟩ := bind_eq_ok hrun
      obtain ⟨hreport, hfiles, _⟩ := applyEntry_eq_ok hs₁
      have hkept : Kept dirs s.1 s₁.1 := by
        have : Kept dirs s.1 (filesAfter (applyEntry false faults s x)) := kept_applyEntry h hx
        rwa [hs₁] at this
      -- The verdict of a later entry is told by what its own name reads as, which the first step left.
      have hverdict : ∀ y ∈ l, verdict s₁.1 y = verdict s.1 y := by
        intro y hy
        refine verdict_congr (read_kept h hkept (hwithin y hy) ?_)
        rcases hfiles with heq | ⟨_, heq⟩
        · rw [heq]
        · rw [heq]
          exact AList.lookup_insert_ne fun heq => hdistinct.1 (heq ▸ List.mem_map_of_mem hy)
      rw [ih (linksHarmless_kept h hkept) hwithin hdistinct.2 hrest, hreport]
      exact List.foldl_ext _ _ _ fun r y hy => by rw [hverdict y hy]

/-- An entry is written over exactly where it was to be to begin with. -/
theorem lookup_own {l : List Generated} (h : LinksHarmless dirs s.1)
    (hwithin : ∀ x ∈ l, dirs.IsEntry x.path) (hdistinct : (l.map Generated.path).Nodup)
    (hrun : l.foldlM (applyEntry false faults) s = .ok s') (hx : x ∈ l) :
    s'.1.lookup x.path =
      if (verdict s.1 x).writes then some (.text x.body) else s.1.lookup x.path := by
  obtain ⟨before, s₁, hbefore, hrun₁, hsame, hlookup⟩ := lookup_entry hdistinct hrun hx
  have hkept := kept_entries h (fun y hy => hwithin y (hbefore y hy)) hrun₁
  rw [hlookup, verdict_congr (read_kept h hkept (hwithin x hx) hsame)]

private theorem removeStale_eq_ok (h : removeStale g failedSandboxes dryRun faults s p = .ok s') :
    s'.2 = { s.2 with removed := s.2.removed ++
      ([p].filter fun p => isSurplus g p && isStale s.1 failedSandboxes p) } ∧
      (s'.1 = s.1 ∨ dryRun = false ∧ s'.1 = s.1.erase p) ∧
      (dryRun = false → isSurplus g p → isStale s'.1 failedSandboxes p = false) := by
  rw [removeStale] at h
  split at h
  · rename_i hstale
    dsimp only at h
    split at h
    · rename_i hdry
      obtain rfl := Except.ok.inj h
      refine ⟨by simp [hstale], Or.inl rfl, fun hd => ?_⟩
      rw [hd] at hdry
      cases hdry
    · rename_i hdry
      split at h
      · cases h
      · obtain rfl := Except.ok.inj h
        refine ⟨by simp [hstale], Or.inr ⟨by simpa using hdry, rfl⟩, fun _ _ => ?_⟩
        -- What was removed is not there any more.
        have hlookup : (s.1.erase p).lookup p = none := AList.lookup_erase p s.1
        rw [isStale, owner, Files.text?, read_of_link?_eq_none (by rw [Files.link?, hlookup]), hlookup]
        rfl
  · rename_i hnot
    obtain rfl := Except.ok.inj h
    refine ⟨by simp [hnot], Or.inl rfl, fun _ hsurplus => ?_⟩
    simpa [hsurplus] using hnot

/-- Removals change their own files alone. -/
theorem sameOn_removals {l : List Path}
    (h : l.foldlM (removeStale g failedSandboxes dryRun faults) s = .ok s') {P : Path → Bool}
    (hP : ∀ p ∈ l, P p = false) : SameOn P s.1 s'.1 := by
  induction l generalizing s with
  | nil =>
      obtain rfl := Except.ok.inj h
      exact SameOn.refl _
  | cons q l ih =>
      obtain ⟨hPq, hP⟩ := List.forall_mem_cons.mp hP
      rw [List.foldlM_cons] at h
      obtain ⟨s₁, hs₁, hrest⟩ := bind_eq_ok h
      have hsame : SameOn P s.1 s₁.1 := by
        rcases (removeStale_eq_ok hs₁).2.1 with heq | ⟨_, heq⟩
        · rw [heq]
          exact SameOn.refl _
        · rw [heq]
          exact sameOn_erase hPq
      exact hsame.trans (ih hrest hP)

/-- The removals of a run are those that there were to begin with, and nothing is left to remove. -/
theorem report_removals {l : List Path} (h : LinksHarmless dirs s.1)
    (hwithin : ∀ p ∈ l, p ≠ [] ∧ p.dropLast ∈ [dirs.applications, dirs.autostart])
    (hdistinct : l.Nodup) (hrun : l.foldlM (removeStale g failedSandboxes false faults) s = .ok s') :
    s'.2 = { s.2 with removed := s.2.removed ++
      (l.filter fun p => isSurplus g p && isStale s.1 failedSandboxes p) } ∧
      ∀ p ∈ l, isSurplus g p → isStale s'.1 failedSandboxes p = false := by
  -- Induction over the files; the removal of one makes no other stale, as the links are harmless.
  induction l generalizing s with
  | nil =>
      obtain rfl := Except.ok.inj hrun
      exact ⟨by simp, by simp⟩
  | cons q l ih =>
      rw [List.nodup_cons] at hdistinct
      obtain ⟨hq, hwithin⟩ := List.forall_mem_cons.mp hwithin
      rw [List.foldlM_cons] at hrun
      obtain ⟨s₁, hs₁, hrest⟩ := bind_eq_ok hrun
      obtain ⟨hreport₁, hfiles, hown⟩ := removeStale_eq_ok hs₁
      have hkept : Kept dirs s.1 s₁.1 := by
        have : Kept dirs s.1 (filesAfter (removeStale g failedSandboxes false faults s q)) :=
          kept_removeStale hq.1 hq.2
        rwa [hs₁] at this
      have h₁ := linksHarmless_kept h hkept
      obtain ⟨hreport, hleft⟩ := ih h₁ hwithin hdistinct.2 hrest
      -- The removals behind it are the same before and after it.
      have hfilter : (l.filter fun p => isSurplus g p && isStale s₁.1 failedSandboxes p) =
          l.filter fun p => isSurplus g p && isStale s.1 failedSandboxes p := by
        refine List.filter_congr fun p hp => ?_
        by_cases hsurplus : isSurplus g p
        · have hentry := isEntry_of_surplus hsurplus (hwithin p hp).1 (hwithin p hp).2
          have hsame : s₁.1.lookup p = s.1.lookup p := by
            rcases hfiles with heq | ⟨_, heq⟩
            · rw [heq]
            · rw [heq]
              exact AList.lookup_erase_ne fun heq => hdistinct.1 (heq ▸ hp)
          rw [isStale_congr (read_kept h hkept hentry hsame)]
        · simp [hsurplus]
      refine ⟨?_, List.forall_mem_cons.mpr ⟨fun hsurplus => ?_, hleft⟩⟩
      · rw [hreport, hfilter, hreport₁]
        simp only [List.append_assoc, ← List.filter_append, List.singleton_append]
      · have hsame : s'.1.lookup q = s₁.1.lookup q :=
          (sameOn_removals hrest (P := fun p => p = q) fun p hp => by
            simpa using fun heq : p = q => hdistinct.1 (heq ▸ hp)).lookup q (by simp)
        have hkept' := kept_removals h₁ hwithin hrest
        rw [isStale_congr (read_kept h₁ hkept' (isEntry_of_surplus hsurplus hq.1 hq.2) hsame)]
        exact hown rfl hsurplus

private theorem place_of_children (hdir : dir ∈ [dirs.applications, dirs.autostart]) :
    ∀ p ∈ children files dir, p ≠ [] ∧ p.dropLast ∈ [dirs.applications, dirs.autostart] := by
  intro p hp
  obtain ⟨_, hne, hplace⟩ := mem_children.mp hp
  exact ⟨hne, hplace ▸ hdir⟩

/-- The same files are removed where files in the way of nothing are the same. -/
theorem removals_eq {P : Path → Bool} (h : LinksHarmless dirs files)
    (hkept : Kept dirs files files') (hsame : SameOn P files files')
    (hdir : dir ∈ [dirs.applications, dirs.autostart])
    (hP : ∀ p, p ≠ [] → p.dropLast = dir → isSurplus g p → P p) :
    removals g failedSandboxes files' dir = removals g failedSandboxes files dir := by
  have hrest : ∀ files : Files, removals g failedSandboxes files dir =
      ((files.keys.filter P).filter fun p => p ≠ [] && p.dropLast = dir && isSurplus g p).filter
        (isStale files failedSandboxes) := by
    intro files
    rw [removals, children, List.filter_filter, List.filter_filter, List.filter_filter]
    refine List.filter_congr fun p _ => ?_
    by_cases hp : p ≠ [] ∧ p.dropLast = dir ∧ isSurplus g p
    · simp [hp.1, hp.2.1, hp.2.2, hP p hp.1 hp.2.1 hp.2.2]
    · by_cases hne : p = []
      · simp [hne]
      -- A path outside the directory is none that a run would remove.
      · by_cases hdir : p.dropLast = dir
        · have hsurplus : isSurplus g p = false := by simpa [hne, hdir] using hp
          simp [hsurplus]
        · simp [hdir]
  rw [hrest, hrest, hsame.keys]
  refine List.filter_congr fun p hp => ?_
  obtain ⟨hp, hplace⟩ := List.mem_filter.mp hp
  simp only [Bool.and_eq_true, decide_eq_true_eq] at hplace
  have hentry := isEntry_of_surplus hplace.2 hplace.1.1 (hplace.1.2 ▸ hdir)
  exact isStale_congr (read_kept h hkept hentry (hsame.lookup p (List.mem_filter.mp hp).2)) _

/-- A real run reports what can be told from the files that there were. -/
theorem report_of_apply (h : LinksHarmless dirs files) (hg : g.Within dirs)
    (hrun : apply g failedSandboxes dirs false faults files = .ok s') :
    s'.2 = expected g failedSandboxes dirs files := by
  obtain ⟨s₁, s₂, hloops⟩ := loops_of_apply hrun
  have hkept₁ := kept_entries h hg hloops.entries
  have h₁ := linksHarmless_kept h hkept₁
  have hplaces : ∀ p ∈ children s₁.1 dirs.applications,
      p ≠ [] ∧ p.dropLast ∈ [dirs.applications, dirs.autostart] :=
    place_of_children List.mem_cons_self
  have hkept₂ := kept_removals h₁ hplaces hloops.applications
  have hentries := report_entries h hg g.distinct hloops.entries
  have happlications := (report_removals h₁ hplaces (children_nodup _ _) hloops.applications).1
  have hautostart := (report_removals (linksHarmless_kept h₁ hkept₂)
    (place_of_children (by simp)) (children_nodup _ _) hloops.autostart).1
  -- The first loop changes nothing that the second looks at, nor the one directory's sweep the other.
  -- The entries are not surplus, and the sweep of one directory is not that of the other.
  have hsame : SameOn (isSurplus g) files s₁.1 :=
    sameOn_entries hloops.entries fun _ hx => isSurplus_of_mem hx
  have hswept : SameOn (fun p => p.dropLast ≠ dirs.applications) s₁.1 s₂.1 :=
    sameOn_removals hloops.applications fun p hp => by simpa using (mem_children.mp hp).2.2
  have hfirst : removals g failedSandboxes s₁.1 dirs.applications =
      removals g failedSandboxes files dirs.applications :=
    removals_eq h hkept₁ hsame (by simp) fun _ _ _ hp => hp
  have hsecond : removals g failedSandboxes s₂.1 dirs.autostart =
      removals g failedSandboxes files dirs.autostart := by
    rw [removals_eq h₁ hkept₂ hswept (by simp) fun p _ hp _ => by simpa [hp] using dirs.distinct.symm,
      removals_eq h hkept₁ hsame (by simp) fun _ _ _ hp => hp]
  rw [removals] at hfirst hsecond
  rw [hautostart, happlications, hentries, hfirst, hsecond, expected]

end Reports

/-! ## Section 4: A Second Run -/

/-- There is nothing that a run would write or remove. -/
structure Settled (g : Generation) (failedSandboxes : List Text) (dirs : Dirs) (files : Files) :
    Prop where
  entries : ∀ x ∈ g.entries, (verdict files x).writes = false
  applications : removals g failedSandboxes files dirs.applications = []
  autostart : removals g failedSandboxes files dirs.autostart = []

section Settling

variable {g : Generation} {failedSandboxes : List Text} {dirs : Dirs} {dryRun : Bool}
  {faults : Faults} {files : Files} {s s' : Files × Report} {dir p : Path}

/-- A file that is not stale is not made stale by removals. -/
theorem isStale_sweep {l : List Path} (h : LinksHarmless dirs s.1)
    (hwithin : ∀ p ∈ l, p ≠ [] ∧ p.dropLast ∈ [dirs.applications, dirs.autostart])
    (hp : dirs.IsEntry p) (hstale : isStale s.1 failedSandboxes p = false)
    (hrun : l.foldlM (removeStale g failedSandboxes dryRun faults) s = .ok s') :
    isStale s'.1 failedSandboxes p = false := by
  have hkept := filesAfter_foldlM (f := removeStale g failedSandboxes dryRun faults) (l := l) (s := s)
    (I := fun files' => Kept dirs s.1 files' ∧ isStale files' failedSandboxes p = false)
    (fun s₁ q hq hs₁ => ?_) ⟨Kept.refl s.1, hstale⟩
  · rw [hrun] at hkept
    exact hkept.2
  · obtain ⟨hkept, hfresh⟩ := hs₁
    have h₁ := linksHarmless_kept h hkept
    have hstep : Kept dirs s₁.1 (filesAfter (removeStale g failedSandboxes dryRun faults s₁ q)) :=
      kept_removeStale (hwithin q hq).1 (hwithin q hq).2
    refine ⟨hkept.trans h hstep, ?_⟩
    -- A file that the removal made stale would lead to it.
    rcases lookup_removeStale g failedSandboxes dryRun faults s₁ q p with heq | ⟨_, _, hstale, _⟩
    · rw [isStale_congr (read_kept h₁ hstep hp heq), hfresh]
    · rw [hfresh] at hstale
      cases hstale

/-- Removals do not add files. -/
theorem mem_children_sweep {l : List Path}
    (h : l.foldlM (removeStale g failedSandboxes dryRun faults) s = .ok s')
    (hp : p ∈ children s'.1 dir) : p ∈ children s.1 dir := by
  obtain ⟨hmem, hplace⟩ := mem_children.mp hp
  refine mem_children.mpr ⟨?_, hplace⟩
  have hkept := filesAfter_foldlM (f := removeStale g failedSandboxes dryRun faults) (l := l) (s := s)
    (I := fun files' => ∀ p ∈ files'.keys, p ∈ s.1.keys) (fun s₁ q _ hs₁ => ?_) fun _ h => h
  · rw [h] at hkept
    exact hkept p hmem
  · rw [removeStale]
    split
    · dsimp only
      split
      · exact hs₁
      · split
        · exact hs₁
        · intro p hp
          exact hs₁ p (AList.mem_keys.mp (AList.mem_erase.mp (AList.mem_keys.mpr hp)).2)
    · exact hs₁

/-- A run that does not fail leaves nothing to write or to remove. -/
theorem settled_of_apply (h : LinksHarmless dirs files) (hg : g.Within dirs)
    (hrun : apply g failedSandboxes dirs false faults files = .ok s') :
    Settled g failedSandboxes dirs s'.1 := by
  obtain ⟨s₁, s₂, hloops⟩ := loops_of_apply hrun
  have hkept₁ := kept_entries h hg hloops.entries
  have h₁ := linksHarmless_kept h hkept₁
  have hplaces₁ : ∀ p ∈ children s₁.1 dirs.applications,
      p ≠ [] ∧ p.dropLast ∈ [dirs.applications, dirs.autostart] :=
    place_of_children List.mem_cons_self
  have hplaces₂ : ∀ p ∈ children s₂.1 dirs.autostart,
      p ≠ [] ∧ p.dropLast ∈ [dirs.applications, dirs.autostart] :=
    place_of_children (by simp)
  have hkept₂ := kept_removals h₁ hplaces₁ hloops.applications
  have h₂ := linksHarmless_kept h₁ hkept₂
  have hkept₃ := kept_removals h₂ hplaces₂ hloops.autostart
  have happlications := (report_removals h₁ hplaces₁ (children_nodup _ _) hloops.applications).2
  have hautostart := (report_removals h₂ hplaces₂ (children_nodup _ _) hloops.autostart).2
  refine ⟨fun x hx => ?_, ?_, ?_⟩
  · have hsurplus := isSurplus_of_mem hx
    -- The entry is not surplus, so it is still there when the sweeps are over.
    have hlookup : s'.1.lookup x.path = s₁.1.lookup x.path :=
      (lookup_sweep hsurplus hloops.autostart).trans (lookup_sweep hsurplus hloops.applications)
    rw [verdict_congr (read_kept h₁ (hkept₂.trans h₁ hkept₃) (hg x hx) hlookup)]
    have hown := lookup_own h hg g.distinct hloops.entries hx
    by_cases hwrites : (verdict files x).writes
    · rw [if_pos hwrites] at hown
      rw [verdict, read_of_text hown]
      simp [Verdict.writes]
    · rw [if_neg hwrites] at hown
      rw [verdict_congr (read_kept h hkept₁ (hg x hx) hown)]
      simpa using hwrites
  · refine List.filter_eq_nil_iff.mpr fun p hp => ?_
    have hp₁ := mem_children_sweep hloops.applications (mem_children_sweep hloops.autostart hp)
    -- A file that is surplus was removed, if it was stale.
    by_cases hsurplus : isSurplus g p
    · have hentry := isEntry_of_surplus hsurplus (hplaces₁ p hp₁).1 (hplaces₁ p hp₁).2
      simp [isStale_sweep h₂ hplaces₂ hentry (happlications p hp₁ hsurplus) hloops.autostart]
    · simp [hsurplus]
  · refine List.filter_eq_nil_iff.mpr fun p hp => ?_
    have hp₂ := mem_children_sweep hloops.autostart hp
    by_cases hsurplus : isSurplus g p
    · simp [hautostart p hp₂ hsurplus]
    · simp [hsurplus]

/-- Where there is nothing to write or to remove, a run is as a dry one. -/
theorem apply_of_settled (h : Settled g failedSandboxes dirs files) (dryRun : Bool) (faults : Faults) :
    apply g failedSandboxes dirs dryRun faults files =
      .ok (files, expected g failedSandboxes dirs files) := by
  -- Entry by entry: none is written, so each step leaves the state.
  have hentries : ∀ (l : List Generated) (r : Report), (∀ x ∈ l, x ∈ g.entries) →
      l.foldlM (applyEntry dryRun faults) (files, r) =
        .ok (files, l.foldl (fun r x => r.note x.path (verdict files x)) r) := by
    intro l
    induction l with
    | nil => exact fun r _ => rfl
    | cons x l ih =>
        intro r hl
        obtain ⟨hx, hl⟩ := List.forall_mem_cons.mp hl
        rw [List.foldlM_cons]
        exact bind_eq_ok_iff.mpr ⟨_, by simp [applyEntry, h.entries x hx], ih _ hl⟩
  -- File by file: none is removed.
  have hremovals : ∀ (l : List Path) (r : Report),
      (∀ p ∈ l, (isSurplus g p && isStale files failedSandboxes p) = false) →
        l.foldlM (removeStale g failedSandboxes dryRun faults) (files, r) = .ok (files, r) := by
    intro l
    induction l with
    | nil => exact fun _ _ => rfl
    | cons p l ih =>
        intro r hl
        obtain ⟨hp, hl⟩ := List.forall_mem_cons.mp hl
        rw [List.foldlM_cons]
        refine bind_eq_ok_iff.mpr ⟨_, ?_, ih r hl⟩
        simp [removeStale, hp]
  have hnone : ∀ dir, removals g failedSandboxes files dir = [] →
      ∀ p ∈ children files dir, (isSurplus g p && isStale files failedSandboxes p) = false :=
    fun dir hdir p hp => by simpa using List.filter_eq_nil_iff.mp hdir p hp
  rw [expected, h.applications, h.autostart, List.append_nil, List.append_nil]
  refine bind_eq_ok_iff.mpr ⟨_, hentries g.entries {} fun _ hx => hx, ?_⟩
  rw [List.foldlM_cons]
  refine bind_eq_ok_iff.mpr ⟨_, hremovals _ _ (hnone _ h.applications), ?_⟩
  rw [List.foldlM_cons]
  exact bind_eq_ok_iff.mpr ⟨_, hremovals _ _ (hnone _ h.autostart), rfl⟩

private theorem expected_of_settled (h : Settled g failedSandboxes dirs files) :
    (expected g failedSandboxes dirs files).added = [] ∧
      (expected g failedSandboxes dirs files).updated = [] ∧
      (expected g failedSandboxes dirs files).removed = [] := by
  have hfold : ∀ (l : List Generated) (r : Report), (∀ x ∈ l, x ∈ g.entries) →
      (l.foldl (fun r x => r.note x.path (verdict files x)) r).added = r.added ∧
        (l.foldl (fun r x => r.note x.path (verdict files x)) r).updated = r.updated ∧
        (l.foldl (fun r x => r.note x.path (verdict files x)) r).removed = r.removed := by
    intro l
    induction l with
    | nil => exact fun _ _ => ⟨rfl, rfl, rfl⟩
    | cons x l ih =>
        intro r hl
        obtain ⟨hx, hl⟩ := List.forall_mem_cons.mp hl
        have hrest := ih (r.note x.path (verdict files x)) hl
        have hwrites := h.entries x hx
        rw [List.foldl_cons]
        -- The two verdicts that write are excluded.
        cases hv : verdict files x with
        | unchanged => rwa [hv] at hrest
        | skipped => rwa [hv] at hrest
        | updated =>
            rw [hv] at hwrites
            cases hwrites
        | added =>
            rw [hv] at hwrites
            cases hwrites
  obtain ⟨hadded, hupdated, hremoved⟩ := hfold g.entries {} fun _ hx => hx
  refine ⟨hadded, hupdated, ?_⟩
  rw [expected, h.applications, h.autostart, hremoved]
  rfl

end Settling

/-! ## Section 5: Which Links Are Harmless -/

/-- What is expected of a run and of those after it. -/
structure Steady (g : Generation) (failedSandboxes : List Text) (dirs : Dirs) (files : Files) :
    Prop where
  /-- What psbox did not write stays as it is, whatever fails. -/
  kept : ∀ dryRun faults p, Foreign files p →
    (filesAfter (apply g failedSandboxes dirs dryRun faults files)).lookup p = files.lookup p
  /-- After a run there is nothing left for a second one to do. -/
  settled : ∀ faults s, apply g failedSandboxes dirs false faults files = .ok s →
    ∀ dryRun faults', ∃ r, apply g failedSandboxes dirs dryRun faults' s.1 = .ok (s.1, r) ∧
      r.added = [] ∧ r.updated = [] ∧ r.removed = []
  /-- A dry run reports what a real one does. -/
  foretold : ∀ faults s, apply g failedSandboxes dirs false faults files = .ok s →
    ∀ faults', apply g failedSandboxes dirs true faults' files = .ok (files, s.2)

section Harmless

variable {g : Generation} {failedSandboxes : List Text} {dirs : Dirs} {files : Files} {p a : Path}
  {t : Text}

private theorem steady_of_harmless (h : LinksHarmless dirs files) (hg : g.Within dirs) :
    Steady g failedSandboxes dirs files where
  kept _ _ p hp := (kept_apply h hg p).resolve_right fun hchanged => hchanged.2.1 hp
  settled _ _ hrun dryRun faults' :=
    have hsettled := settled_of_apply h hg hrun
    ⟨_, apply_of_settled hsettled dryRun faults', expected_of_settled hsettled⟩
  foretold _ _ hrun faults' := by rw [apply_dryRun, report_of_apply h hg hrun]

/-- One entry under the name of a link that leads nowhere takes its place. -/
theorem leads_of_steady (h : ∀ g, g.Within dirs → ∀ failedSandboxes, Steady g failedSandboxes dirs files)
    (hp : dirs.IsEntry p) (hthere : files.lookup p ≠ none) : files.read p ≠ .missing := by
  intro hmissing
  let x : Generated := ⟨p, [], []⟩
  let g : Generation := ⟨[x], [], [], [], List.nodup_singleton _⟩
  have hsteady := h g (by simpa [g, Generation.Within] using hp) []
  obtain ⟨s', hrun⟩ := exists_run g [] dirs files false noFaults (fun _ _ => rfl) fun _ _ => rfl
  obtain ⟨s₁, s₂, hloops⟩ := loops_of_apply hrun
  obtain ⟨s₀, hs₀, hrest⟩ := bind_eq_ok hloops.entries
  obtain rfl := Except.ok.inj hrest
  -- The dangling link reads as missing, which is taken for free.
  have hwrites : (verdict files x).writes := by rw [verdict, hmissing]; rfl
  have hwritten : s₀.1.lookup p = some (.text []) := by
    have := (applyEntry_eq_ok hs₀).2.2 rfl
    rwa [if_pos hwrites] at this
  have hsurplus : isSurplus g p = false := isSurplus_of_mem (x := x) (List.mem_singleton_self x)
  have hkept := hsteady.kept false noFaults p ⟨hthere, fun t ht => by simp [Files.text?, hmissing] at ht⟩
  rw [hrun] at hkept
  have hlookup : files.lookup p = some (.text []) := by
    rw [← hkept, ← hwritten, ← lookup_sweep hsurplus hloops.applications]
    exact lookup_sweep hsurplus hloops.autostart
  rw [read_of_text hlookup] at hmissing
  cases hmissing

/-- There is more than one text that psbox could have written. -/
theorem exists_marked_ne (t : Text) : ∃ b, isMarked b ∧ b ≠ t := by
  -- The marker line alone, or with another line behind it.
  by_cases ht : generatorMarker = t
  · refine ⟨generatorMarker ++ ['\n'], by decide, fun heq => ?_⟩
    simpa using congrArg List.length (ht.trans heq.symm)
  · exact ⟨generatorMarker, by decide, ht⟩

/-- Where a link leads by way of the name of another entry to a file that psbox wrote, that entry can
be written over after the link's own was found to be as it should. -/
theorem foreign_of_steady (h : ∀ g, g.Within dirs → ∀ failedSandboxes, Steady g failedSandboxes dirs files)
    (hp : dirs.IsEntry p) (ha : a ∈ files.way maxLinks p) (hentry : dirs.IsEntry a)
    (ht : files.text? a = some t) : ¬isMarked t := by
  intro hmarked
  have hread := text?_eq_some.mp ht
  -- The one leads to the other, and no path leads to itself.
  have hne : p ≠ a := by
    rintro rfl
    rw [Files.read, follow_of_mem_own_way ha] at hread
    cases hread
  obtain ⟨b, hb, hbt⟩ := exists_marked_ne t
  let x : Generated := ⟨p, t, []⟩
  let y : Generated := ⟨a, b, []⟩
  -- Nothing is surplus, so that nothing is removed.
  let g : Generation := ⟨[x, y], [], [], files.keys, by simpa [x, y] using hne⟩
  have hwithin : g.Within dirs := by simp [g, Generation.Within, x, y, hp, hentry]
  obtain ⟨s', hrun⟩ := exists_run g [] dirs files false noFaults (fun _ _ => rfl) fun _ _ => rfl
  obtain ⟨s₁, s₂, hloops⟩ := loops_of_apply hrun
  have hfirst : (verdict files x).writes = false := by
    rcases read_of_mem_way ha with heq | hfailed
    · rw [verdict, heq, hread]
      simp [x, Verdict.writes]
    · rw [verdict, hfailed]
      rfl
  have hsecond : (verdict files y).writes := by
    rw [verdict, hread]
    simp [y, Ne.symm hbt, hmarked, Verdict.writes]
  -- The first entry is left as it is, and the second written.
  obtain ⟨s₀, hs₀, hrest⟩ := bind_eq_ok hloops.entries
  obtain ⟨s₀', hs₀', hrest⟩ := bind_eq_ok hrest
  obtain rfl := Except.ok.inj hrest
  have hunchanged : s₀.1 = files := by
    rw [applyEntry] at hs₀
    simp only [hfirst, Bool.false_and, Bool.false_eq_true, if_false] at hs₀
    rw [← Except.ok.inj hs₀]
  obtain ⟨_, hfiles, hown⟩ := applyEntry_eq_ok hs₀'
  rw [hunchanged] at hfiles hown
  have hsweep : ∀ q, isSurplus g q = false → s'.1.lookup q = s₀'.1.lookup q := fun q hq =>
    (lookup_sweep hq hloops.autostart).trans (lookup_sweep hq hloops.applications)
  have hwritten : s'.1.lookup a = some (.text b) := by
    rw [hsweep a (isSurplus_of_mem (x := y) (by simp [g])), hown rfl, if_pos hsecond]
  have hrestSame : ∀ q, files.lookup q ≠ none → q ≠ a → s'.1.lookup q = files.lookup q := by
    intro q hq hqa
    have hmem : q ∈ files.keys := AList.mem_keys.mp (AList.lookup_isSome.mp (Option.isSome_iff_ne_none.mpr hq))
    rw [hsweep q (by simp [isSurplus, g, hmem])]
    rcases hfiles with heq | ⟨_, heq⟩
    · rw [heq]
    · rw [heq]
      exact AList.lookup_insert_ne hqa
  -- The link reads as what was written, which a second run takes for its own to update.
  have hlink : s'.1.link? a = none := link?_of_text hwritten
  have hread' : s'.1.read p = .text b := by
    simp only [Files.read, follow_cut ha hrestSame hlink, hwritten, reading]
  obtain ⟨r, hagain, _, hupdated, _⟩ := (h g hwithin []).settled noFaults s' hrun true noFaults
  rw [apply_dryRun] at hagain
  obtain rfl : expected g [] dirs s'.1 = r := congrArg Prod.snd (Except.ok.inj hagain)
  have hx : verdict s'.1 x = .updated := by
    rw [verdict, hread']
    simp [x, hbt, hb]
  have hy : verdict s'.1 y = .unchanged := by
    rw [verdict, read_of_text hwritten]
    simp [y]
  simp [expected, g, hx, hy, Report.note] at hupdated

/-- The links in the two directories are harmless exactly where every run keeps what psbox did not
write, leaves nothing for a second one, and does what a dry one reports. -/
theorem harmless_iff : (∀ g, g.Within dirs → ∀ failedSandboxes, Steady g failedSandboxes dirs files) ↔
    LinksHarmless dirs files :=
  ⟨fun h => ⟨fun _ hp => leads_of_steady h hp, fun _ hp _ ha hentry _ => foreign_of_steady h hp ha hentry⟩,
    fun h _ hg _ => steady_of_harmless h hg⟩

end Harmless

/-- A link of the user's that leads nowhere. -/
def danglingFiles : Files :=
  AList.singleton (exampleDirs.applications ++ ["shared.desktop".toList])
    (.link ["dotfiles".toList, "shared.desktop".toList])

/-- A file that psbox wrote, and a link to it. -/
def linkedFiles : Files :=
  (AList.singleton (exampleDirs.autostart ++ ["x.desktop".toList])
    (.link (exampleDirs.applications ++ ["x.desktop".toList]))).insert
    (exampleDirs.applications ++ ["x.desktop".toList]) (.text generatorMarker)

end Psbox.Install
