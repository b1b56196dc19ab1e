import Mathlib.Data.Char
import Mathlib.Data.List.Lex
import Mathlib.Data.List.Sort
import Mathlib.Order.Basic
import Psbox.Install.Files

/-!
# Generating Entries

`generate` of `install.rs`: the file of every configured entry of every sandbox, and what could
not be built. Whatever the order the sandboxes come in, it is the same (`generate_perm`), and no
two entries are one file.
-/

namespace Psbox.Install

open Psbox.Foundations Psbox.Desktop

/-! ## Section 1: Host Entries -/

def desktopExtension : Text := ".desktop".toList

/-- The relative paths a desktop file id is looked up at: with one `-` taken as a directory. -/
def idPaths (id : Text) : List Path :=
  [id ++ desktopExtension] :: (List.range id.length).filterMap fun i =>
    if id[i]? = some '-' then
      some ([id.take i].filter (· ≠ []) ++ [id.drop (i + 1) ++ desktopExtension])
    else none

/-- Finds a host entry for `id` under `<dir>/<sub>`, skipping files psbox wrote. -/
def findHost (files : Files) (dirs : List Path) (sub id : Text) : Option Path :=
  (dirs.flatMap fun d => (idPaths id).map fun p => d ++ sub :: p).find? fun p =>
    isFile files p && !isGenerated files p

/-- Where entries are read from and written to, as the directories really are: links on the way to
them have been followed. -/
structure Dirs where
  applications : Path
  autostart : Path
  dataDirs : List Path
  configDirs : List Path
  distinct : applications ≠ autostart

/-- The two directories have names of their own. -/
def Dirs.forHost (dataHome configHome : Path) (dataDirs configDirs : List Path) : Dirs where
  applications := dataHome ++ ["applications".toList]
  autostart := configHome ++ ["autostart".toList]
  dataDirs := dataDirs
  configDirs := configDirs
  distinct h := by
    -- The last components are different, and so are the paths.
    have := congrArg List.getLast? h
    rw [List.getLast?_concat, List.getLast?_concat] at this
    exact absurd this (by decide)

/-! ## Section 2: What Is Configured -/

inductive Kind where
  | application
  | autostart
  deriving DecidableEq

structure Application where
  id : Text
  sourceId : Option Text
  removeArguments : List Text
  keys : Keys
  actions : Actions
  noDisplay : Option Bool
  implicit : Bool

/-- Whether `psbox install` writes a desktop file for it. -/
def Application.hasEntry (a : Application) : Bool :=
  !a.implicit || a.sourceId.isSome

structure Autostart where
  app : Text
  id : Text
  sourceId : Option Text
  removeArguments : List Text
  keys : Keys

inductive AppSpec where
  | application (a : Application)
  | autostart (a : Autostart)
  /-- A `Hidden=true` entry under `id`, hiding the host's. -/
  | suppress (kind : Kind) (id : Text)

def AppSpec.kind : AppSpec → Kind
  | .application _ => .application
  | .autostart _ => .autostart
  | .suppress kind _ => kind

def AppSpec.id : AppSpec → Text
  | .application a => a.id
  | .autostart a => a.id
  | .suppress _ id => id

/-- An app of a configuration. -/
structure App where
  name : Text
  valid : validName name
  spec : AppSpec

/-- A sandbox whose configuration was evaluated: its name, and its apps in the order of their
names. -/
structure Sandbox where
  name : Text
  apps : List App

/-! ## Section 3: Generating -/

/-- One file to write. -/
structure Generated where
  path : Path
  body : Text
  sandbox : Text
  deriving DecidableEq

inductive EntryError where
  | unreadable (path : Path)
  | build (e : BuildError)
  deriving DecidableEq

/-- Why an entry was not generated. -/
inductive Problem where
  | error (e : EntryError)
  /-- The file also belongs to another sandbox, whose name sorts first. -/
  | taken (path : Path) (sandbox : Text)
  deriving DecidableEq

/-- An entry that was not generated, by its sandbox and its name. -/
structure Warning where
  sandbox : Text
  entry : Text
  problem : Problem
  deriving DecidableEq

/-- Every configured entry, and what could not be generated. -/
structure Generation where
  entries : List Generated
  warnings : List Warning
  notes : List (Text × Text)
  /-- Paths of entries that could not be built, or that another sandbox claims. -/
  failed : List Path
  distinct : (entries.map Generated.path).Nodup

def Generation.empty : Generation where
  entries := []
  warnings := []
  notes := []
  failed := []
  distinct := List.nodup_nil

def Generation.warn (g : Generation) (w : Warning) (path : Path) : Generation :=
  { g with warnings := g.warnings ++ [w], failed := g.failed ++ [path] }

private theorem distinct_concat {entries : List Generated} (h : (entries.map Generated.path).Nodup)
    {new : Generated} (hnew : entries.find? (·.path = new.path) = none) :
    ((entries ++ [new]).map Generated.path).Nodup := by
  rw [List.map_append, List.nodup_append]
  refine ⟨h, List.nodup_singleton _, fun p hp q hq heq => ?_⟩
  obtain ⟨g, hg, rfl⟩ := List.mem_map.mp hp
  obtain rfl : q = new.path := by simpa using hq
  have := List.find?_eq_none.mp hnew g hg
  simp [heq] at this

/-- Adds a built entry, unless there is one for the file. -/
def Generation.push (g : Generation) (sandbox : Text) (path : Path) (entry : Text)
    (built : Except EntryError Entry) : Generation :=
  match built with
  | .ok e =>
      match h : g.entries.find? (·.path = path) with
      | some prev => g.warn ⟨sandbox, entry, .taken path prev.sandbox⟩ path
      | none =>
          { g with
            entries := g.entries ++ [⟨path, e.render sandbox, sandbox⟩]
            distinct := distinct_concat g.distinct h }
  | .error err => g.warn ⟨sandbox, entry, .error err⟩ path

/-- The host entry that is copied: none, one that is not found, or its text. -/
def hostText (files : Files) (search : List (List Path × Text)) :
    Option Text → Except EntryError (Option (Option Text))
  | none => .ok none
  | some id =>
      match search.findSome? fun (dirs, sub) => findHost files dirs sub id with
      | none => .ok (some none)
      | some p =>
          match files.text? p with
          | some t => .ok (some (some t))
          | none => .error (.unreadable p)

/-- The directory itself, without its last component. -/
def parent (p : Path) : List Path :=
  if p = [] then [] else [p.dropLast]

def Dirs.apps (dirs : Dirs) : List (List Path × Text) :=
  [(parent dirs.applications, "applications".toList), (dirs.dataDirs, "applications".toList)]

def Dirs.autostarts (dirs : Dirs) : List (List Path × Text) :=
  [(parent dirs.autostart, "autostart".toList), (dirs.configDirs, "autostart".toList),
    (parent dirs.applications, "applications".toList), (dirs.dataDirs, "applications".toList)]

def Dirs.ofKind (dirs : Dirs) : Kind → Path
  | .application => dirs.applications
  | .autostart => dirs.autostart

def entryPath (dirs : Dirs) (spec : AppSpec) : Path :=
  dirs.ofKind spec.kind ++ [spec.id ++ desktopExtension]

def noActions : Actions where
  entries := []
  distinct := List.nodup_nil
  valid _ h := absurd h List.not_mem_nil

def buildApplication (files : Files) (dirs : Dirs) (psbox sandbox : Text) (app : App)
    (a : Application) : Except EntryError Entry := do
  let copy ← hostText files dirs.apps a.sourceId
  (build
    { copy := copy, name := app.name, keys := a.keys, actions := a.actions,
      removeArguments := a.removeArguments, noDisplay := a.noDisplay, validName := app.valid }
    { psbox := psbox, sandbox := sandbox, app := app.name }).mapError .build

def buildAutostart (files : Files) (dirs : Dirs) (psbox sandbox : Text) (app : App)
    (a : Autostart) : Except EntryError Entry := do
  let copy ← hostText files dirs.autostarts a.sourceId
  (build
    { copy := copy, name := app.name, keys := a.keys, actions := noActions,
      removeArguments := a.removeArguments, noDisplay := none, validName := app.valid }
    { psbox := psbox, sandbox := sandbox, app := a.app }).mapError .build

/-- The entry of an app, where it has one. -/
def builtEntry (files : Files) (dirs : Dirs) (psbox sandbox : Text) (app : App) :
    Option (Except EntryError Entry) :=
  match app.spec with
  | .suppress _ id => some (.ok (hidden id))
  | .application a =>
      if a.hasEntry then some (buildApplication files dirs psbox sandbox app a) else none
  | .autostart a => some (buildAutostart files dirs psbox sandbox app a)

def entryName (app : App) : Text :=
  "app.".toList ++ app.name

def Generation.addApp (files : Files) (dirs : Dirs) (psbox sandbox : Text) (g : Generation)
    (app : App) : Generation :=
  match builtEntry files dirs psbox sandbox app with
  | some built => g.push sandbox (entryPath dirs app.spec) (entryName app) built
  -- The implicit default app has no host entry to inherit.
  | none => { g with notes := g.notes ++ [(sandbox, entryName app)] }

def Generation.addSandbox (files : Files) (dirs : Dirs) (psbox : Text) (g : Generation)
    (s : Sandbox) : Generation :=
  s.apps.foldl (Generation.addApp files dirs psbox s.name) g

/-- The sandboxes by name. -/
def sorted (sandboxes : List Sandbox) : List Sandbox :=
  sandboxes.insertionSort fun a b => a.name ≤ b.name

/-- Generates every configured entry, from sandboxes in name order: when two claim one file, the
first gets it. -/
def generate (files : Files) (sandboxes : List Sandbox) (dirs : Dirs) (psbox : Text) : Generation :=
  (sorted sandboxes).foldl (Generation.addSandbox files dirs psbox) Generation.empty

/-! ## Section 4: Which Files Entries Are For -/

/-- The file of an entry: `<id>.desktop`, in one of the two directories. -/
def Dirs.IsEntry (dirs : Dirs) (p : Path) : Prop :=
  ∃ kind id, p = dirs.ofKind kind ++ [id ++ desktopExtension]

/-- Every entry is for a file of the two directories. -/
def Generation.Within (g : Generation) (dirs : Dirs) : Prop :=
  ∀ x ∈ g.entries, dirs.IsEntry x.path

section Within

variable {files : Files} {dirs : Dirs} {psbox sandbox : Text} {g : Generation}

private theorem within_push (h : g.Within dirs) {path : Path} (hpath : dirs.IsEntry path) (entry : Text)
    (built : Except EntryError Entry) : (g.push sandbox path entry built).Within dirs := by
  -- An entry that cannot be built adds nothing.
  cases built with
  | error err => exact h
  | ok e =>
      unfold Generation.push
      dsimp only
      split
      · exact h
      · intro x hx
        rcases List.mem_append.mp hx with hx | hx
        · exact h x hx
        · obtain rfl := List.mem_singleton.mp hx
          exact hpath

private theorem within_addApp (h : g.Within dirs) (app : App) :
    (g.addApp files dirs psbox sandbox app).Within dirs := by
  rw [Generation.addApp]
  -- An app without an entry of its own adds nothing.
  cases hbuilt : builtEntry files dirs psbox sandbox app with
  | some built => exact within_push h ⟨app.spec.kind, app.spec.id, rfl⟩ _ built
  | none => exact h

theorem within_generate (sandboxes : List Sandbox) :
    (generate files sandboxes dirs psbox).Within dirs := by
  -- App by app, and then sandbox by sandbox.
  have happs : ∀ (name : Text) (apps : List App) (g : Generation), g.Within dirs →
      (apps.foldl (Generation.addApp files dirs psbox name) g).Within dirs := by
    intro name apps
    induction apps with
    | nil => exact fun g h => h
    | cons app apps ih => exact fun g h => ih _ (within_addApp h app)
  have hall : ∀ (sandboxes : List Sandbox) (g : Generation), g.Within dirs →
      (sandboxes.foldl (Generation.addSandbox files dirs psbox) g).Within dirs := by
    intro sandboxes
    induction sandboxes with
    | nil => exact fun g h => h
    | cons sandbox sandboxes ih => exact fun g h => ih _ (happs sandbox.name sandbox.apps g h)
  exact hall _ _ fun x hx => absurd hx List.not_mem_nil

end Within

/-! ## Section 5: The Order of the Sandboxes -/

private theorem sorted_perm {sandboxes sandboxes' : List Sandbox} (h : sandboxes.Perm sandboxes')
    (hnames : (sandboxes.map Sandbox.name).Nodup) : sorted sandboxes = sorted sandboxes' := by
  have hperm : (sorted sandboxes).Perm (sorted sandboxes') :=
    ((List.perm_insertionSort _ _).trans h).trans (List.perm_insertionSort _ _).symm
  -- A sort by name orders any two of them.
  have hordered : ∀ l : List Sandbox, (sorted l).Pairwise fun a b => a.name ≤ b.name :=
    fun l => List.pairwise_insertionSort _ l
  refine hperm.eq_of_pairwise (fun a b ha hb hab hba => ?_) (hordered _) (hordered _)
  have hmem : ∀ s, s ∈ sorted sandboxes → s ∈ sandboxes := fun s hs =>
    (List.perm_insertionSort _ _).mem_iff.mp hs
  exact List.inj_on_of_nodup_map hnames (hmem a ha) (hmem b (hperm.mem_iff.mpr hb))
    (le_antisymm hab hba)

/-- The order that the sandboxes come in makes no difference. -/
theorem generate_perm {sandboxes sandboxes' : List Sandbox} (h : sandboxes.Perm sandboxes')
    (hnames : (sandboxes.map Sandbox.name).Nodup) (files : Files) (dirs : Dirs) (psbox : Text) :
    generate files sandboxes dirs psbox = generate files sandboxes' dirs psbox := by
  rw [generate, generate, sorted_perm h hnames]

/-! ## Section 6: What Could Not Be Built -/

/-- An entry of the sandbox for the path could not be built. Every warning has its path among
those that failed. -/
def Generation.Unbuilt (g : Generation) (sandbox : Text) (path : Path) : Prop :=
  ∃ entry err, (⟨sandbox, entry, .error err⟩, path) ∈ g.warnings.zip g.failed

section Unbuilt

variable {files : Files} {dirs : Dirs} {psbox sandbox : Text} {path : Path} {g g' : Generation}

theorem failed_of_unbuilt (h : g.Unbuilt sandbox path) : path ∈ g.failed := by
  obtain ⟨_, _, hmem⟩ := h
  exact (List.of_mem_zip hmem).2

/-- A built entry is added, or its file belongs to another. -/
theorem push_ok (g : Generation) (sandbox : Text) (path : Path) (entry : Text) (e : Entry) :
    (∃ prev, g.push sandbox path entry (.ok e) = g.warn ⟨sandbox, entry, .taken path prev⟩ path) ∨
      (g.push sandbox path entry (.ok e)).warnings = g.warnings ∧
        (g.push sandbox path entry (.ok e)).failed = g.failed := by
  unfold Generation.push
  dsimp only
  split
  · exact Or.inl ⟨_, rfl⟩
  · exact Or.inr ⟨rfl, rfl⟩

private theorem unbuilt_warn (h : g.warnings.length = g.failed.length) (w : Warning) (q : Path) (s : Text)
    (p : Path) : (g.warn w q).Unbuilt s p ↔
      g.Unbuilt s p ∨ q = p ∧ w.sandbox = s ∧ ∃ err, w.problem = .error err := by
  have hzip : (g.warn w q).warnings.zip (g.warn w q).failed =
      g.warnings.zip g.failed ++ [(w, q)] :=
    List.zip_append h
  constructor
  · rintro ⟨entry, err, hmem⟩
    rw [hzip, List.mem_append] at hmem
    rcases hmem with hmem | hmem
    · exact Or.inl ⟨entry, err, hmem⟩
    · obtain ⟨hw, hq⟩ := Prod.mk.inj (List.mem_singleton.mp hmem)
      exact Or.inr ⟨hq.symm, by rw [← hw], err, by rw [← hw]⟩
  · rintro (⟨entry, err, hmem⟩ | ⟨rfl, rfl, err, herr⟩)
    · exact ⟨entry, err, by rw [hzip]; exact List.mem_append_left _ hmem⟩
    · refine ⟨w.entry, err, ?_⟩
      rw [hzip, ← herr]
      exact List.mem_append_right _ (List.mem_singleton_self _)

/-- The app's entry is for the path, and cannot be built. -/
def FailsAt (files : Files) (dirs : Dirs) (psbox sandbox : Text) (path : Path) (app : App) : Prop :=
  entryPath dirs app.spec = path ∧ ∃ err, builtEntry files dirs psbox sandbox app = some (.error err)

private theorem unbuilt_addApp (h : g.warnings.length = g.failed.length) (app : App) :
    (g.addApp files dirs psbox sandbox app).warnings.length =
        (g.addApp files dirs psbox sandbox app).failed.length ∧
      ∀ s p, (g.addApp files dirs psbox sandbox app).Unbuilt s p ↔
        g.Unbuilt s p ∨ s = sandbox ∧ FailsAt files dirs psbox sandbox p app := by
  -- A warning comes with its path.
  have hwarn : ∀ w q, (g.warn w q).warnings.length = (g.warn w q).failed.length := fun w q => by
    simp [Generation.warn, h]
  rw [Generation.addApp]
  -- The app has no entry, one that cannot be built, or one that can.
  cases hbuilt : builtEntry files dirs psbox sandbox app with
  | none => exact ⟨h, fun s p => by simp [FailsAt, hbuilt, Generation.Unbuilt]⟩
  | some built =>
      cases built with
      | error err =>
          refine ⟨hwarn _ _, fun s p => ?_⟩
          refine (unbuilt_warn h _ _ s p).trans (or_congr_right ?_)
          simp [FailsAt, hbuilt, eq_comm, and_comm]
      | ok e =>
          rcases push_ok g sandbox (entryPath dirs app.spec) (entryName app) e with
            ⟨prev, heq⟩ | ⟨hwarnings, hfailed⟩
          · dsimp only
            rw [heq]
            refine ⟨hwarn _ _, fun s p => ?_⟩
            refine (unbuilt_warn h _ _ s p).trans (or_congr_right ?_)
            simp [FailsAt, hbuilt]
          · dsimp only
            rw [hwarnings, hfailed]
            refine ⟨h, fun s p => ?_⟩
            rw [Generation.Unbuilt, hwarnings, hfailed]
            simp [FailsAt, hbuilt, Generation.Unbuilt]

/-- What is among the failures of a generation: the entries that cannot be built. -/
theorem unbuilt_generate (sandboxes : List Sandbox) (s : Text) (p : Path) :
    (generate files sandboxes dirs psbox).Unbuilt s p ↔
      ∃ sandbox ∈ sandboxes, s = sandbox.name ∧
        ∃ app ∈ sandbox.apps, FailsAt files dirs psbox sandbox.name p app := by
  -- App by app.
  have happs : ∀ (name : Text) (apps : List App) (g : Generation), g.warnings.length = g.failed.length →
      (apps.foldl (Generation.addApp files dirs psbox name) g).warnings.length =
          (apps.foldl (Generation.addApp files dirs psbox name) g).failed.length ∧
        ((apps.foldl (Generation.addApp files dirs psbox name) g).Unbuilt s p ↔
          g.Unbuilt s p ∨ s = name ∧ ∃ app ∈ apps, FailsAt files dirs psbox name p app) := by
    intro name apps
    induction apps with
    | nil => exact fun g h => ⟨h, by simp⟩
    | cons app apps ih =>
        intro g h
        obtain ⟨hlength, hadd⟩ := unbuilt_addApp h app
        obtain ⟨hlength', hrest⟩ := ih _ hlength
        refine ⟨hlength', hrest.trans ?_⟩
        rw [hadd]
        simp only [List.mem_cons, exists_eq_or_imp]
        tauto
  -- Sandbox by sandbox.
  have hall : ∀ (sandboxes : List Sandbox) (g : Generation), g.warnings.length = g.failed.length →
      ((sandboxes.foldl (Generation.addSandbox files dirs psbox) g).Unbuilt s p ↔
        g.Unbuilt s p ∨ ∃ sandbox ∈ sandboxes, s = sandbox.name ∧
          ∃ app ∈ sandbox.apps, FailsAt files dirs psbox sandbox.name p app) := by
    intro sandboxes
    induction sandboxes with
    | nil => exact fun g _ => by simp
    | cons sandbox sandboxes ih =>
        intro g h
        obtain ⟨hlength, hadd⟩ := happs sandbox.name sandbox.apps g h
        refine (ih _ hlength).trans ?_
        rw [hadd]
        simp only [List.mem_cons, exists_eq_or_imp]
        exact or_assoc
  rw [generate, hall _ _ rfl]
  have hmem : ∀ x, x ∈ sorted sandboxes ↔ x ∈ sandboxes := fun x =>
    (List.perm_insertionSort _ _).mem_iff
  simp only [hmem]
  simp [Generation.Unbuilt, Generation.empty]

end Unbuilt

end Psbox.Install
