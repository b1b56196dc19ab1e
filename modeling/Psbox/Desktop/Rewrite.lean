import Mathlib.Data.List.Forall2
import Psbox.Desktop.Entry
import Psbox.Foundations.Fallible

/-!
# Entries That Launch Through psbox

`rewrite` and `finish` of `desktop.rs`: how a host's entry is made one that runs an app of a
sandbox, and what a host's entry has to be like for nothing of it to run outside.

Both go through sections by name, and a name leads to its first section. So a section that is not
the first of its name is left as it is, and one whose name is repeated is rewritten as often.
-/

namespace Psbox.Desktop

open Psbox.Foundations

/-! ## Section 1: Rewriting -/

def execKey : Text := "Exec".toList
def tryExecKey : Text := "TryExec".toList
def dbusKey : Text := "DBusActivatable".toList

/-- Rewrites the `Exec` of a section, if it has one. -/
def rewriteSection (t : Target) (removeArgs : List Text) (e : Entry) (name : Text) :
    Except ExecError Entry :=
  match e.get name execKey with
  | none => .ok e
  | some exec => do
      let written ← t.rewritten exec removeArgs
      .ok (e.set name execKey written)

/-- Rewrites every `Exec` of an entry (as copied from the host) to launch through psbox. -/
def rewrite (e : Entry) (t : Target) (removeArgs : List Text) : Except ExecError Entry :=
  e.execSections.foldlM (rewriteSection t removeArgs) e

/-- An `Exec` for an entry without one, with `%U` when it opens files of a `MimeType`. -/
def ensureExec (e : Entry) (t : Target) : Entry :=
  if (e.get mainSection execKey).isNone then
    let args := if (e.get mainSection "MimeType".toList).isSome then ["%U".toList] else []
    e.set mainSection execKey (t.exec args)
  else e

/-- The program may exist only inside the sandbox. -/
def removeTryExec (e : Entry) : Entry :=
  e.execSections.foldl (fun e name => e.remove name tryExecKey) e

/-- `Actions` names the action sections there are, each followed by a semicolon. -/
def nameActions (e : Entry) : Entry :=
  if e.actions.isEmpty then e.remove mainSection "Actions".toList
  else e.set mainSection "Actions".toList (e.actions.flatMap (· ++ [';']))

/-- The rules every installed entry needs. -/
def finish (e : Entry) (t : Target) : Entry :=
  -- In the order of the source; each rule reads what those before it left.
  let e := removeTryExec (ensureExec e t)
  let e := e.set mainSection "Type".toList "Application".toList
  let e := e.remove mainSection "Hidden".toList
  let e := e.set mainSection dbusKey "false".toList
  nameActions e

/-- A minimal entry that hides a host autostart entry with the same id. -/
def hidden (id : Text) : Entry :=
  ((Entry.new.set mainSection "Type".toList "Application".toList).set mainSection "Name".toList
    id).set mainSection "Hidden".toList "true".toList

/-! ## Section 2: What an Entry Must Not Do -/

/-- A line that runs what a section's first `Exec` line did, wrapped in the target's command
once, or the app itself where there was none. -/
def WrappedOnce (t : Target) (removeArgs : List Text) (host : Option Text) (value : Text) : Prop :=
  match host with
  | none => ∃ args, splitExec value = .ok (t.command ++ dashed args)
  | some v => ∃ launch, launchFor v removeArgs = .ok launch ∧
      splitExec value = .ok (t.command ++ launch.argv)

/-- A section as the host has it, and what became of it: it runs nothing but the target. -/
structure Contained (t : Target) (removeArgs : List Text) (before after : Section) : Prop where
  exec : isExecSection before.name → ∀ v ∈ after.values execKey,
    WrappedOnce t removeArgs (before.get execKey) v
  tryExec : isExecSection before.name → after.values tryExecKey = []
  activation : ∀ v ∈ after.values dbusKey, v = "false".toList

/-- No section of what the host's text becomes runs anything but the target. -/
def Confined (t : Target) (text : Text) : Prop :=
  ∀ entry removeArgs rewritten, Entry.parse text = .ok entry →
    rewrite entry t removeArgs = .ok rewritten →
      List.Forall₂ (Contained t removeArgs) entry.sections (finish rewritten t).sections

/-- The names of the sections. -/
def Entry.names (e : Entry) : List Text :=
  e.sections.map (·.name)

/-- Every `Exec` line that is rewritten can be read, and names a program. -/
def Readable (e : Entry) : Prop :=
  ∀ name, isExecSection name → ∀ v, e.get name execKey = some v →
    ∃ launch, launchFor v [] = .ok launch

/-- What is left as it is, or is rewritten more than once, does no harm. -/
structure Harmless (e : Entry) : Prop where
  repeated : e.sections.Pairwise fun s s' => s.name = s'.name → isExecSection s.name →
    s.values execKey = [] ∧ s'.values execKey = [] ∧ s'.values tryExecKey = []
  activation : ∀ i s, e.sections[i]? = some s → ¬(s.name = mainSection ∧ FirstAt e.names i) →
    ∀ v ∈ s.values dbusKey, v = "false".toList

/-! ## Section 3: Section by Section -/

section Places

variable {e : Entry} {name : Text} {f : Section → Section} {i : Nat} {s : Section}

theorem names_change (hf : ∀ s, (f s).name = s.name) : (e.change name f).names = e.names :=
  map_mapFirst _ hf e.sections

/-- A change, at a place: it is made at the first section of the name. -/
theorem change_place (h : e.sections[i]? = some s) :
    (e.change name f).sections[i]? =
      some (if s.name = name ∧ FirstAt e.names i then f s else s) :=
  getElem?_mapFirst name f h

/-- A name leads to its first section. -/
theorem get_place (h : e.sections[i]? = some s) (hfirst : FirstAt e.names i) (key : Text) :
    e.get s.name key = s.get key := by
  rw [Entry.get, find?_eq_of_firstAt h hfirst]
  rfl

end Places

/-- What a pass of `rewrite` makes of the section that it comes to. -/
def wrap (t : Target) (removeArgs : List Text) (s : Section) : Except ExecError Section :=
  match s.get execKey with
  | none => .ok s
  | some exec => do
      let written ← t.rewritten exec removeArgs
      .ok (s.set execKey written)

/-- As many passes over the section. -/
def wrapTimes (t : Target) (removeArgs : List Text) : Nat → Section → Except ExecError Section
  | 0, s => .ok s
  -- Once for each section of the name among those that are listed.
  | k + 1, s => do
      let s' ← wrap t removeArgs s
      wrapTimes t removeArgs k s'

section Rewriting

variable {t : Target} {removeArgs : List Text} {e e' : Entry} {i : Nat} {s : Section}

theorem wrap_name {s' : Section} (h : wrap t removeArgs s = .ok s') : s'.name = s.name := by
  rw [wrap] at h
  split at h
  · cases h
    rfl
  · obtain ⟨w, _, hw⟩ := bind_eq_ok h
    cases hw
    exact s.name_set execKey w

theorem rewriteSection_names {name : Text} (h : rewriteSection t removeArgs e name = .ok e') :
    e'.names = e.names := by
  rw [rewriteSection] at h
  split at h
  · cases h
    rfl
  · obtain ⟨w, _, hw⟩ := bind_eq_ok h
    cases hw
    exact names_change fun s => s.name_set execKey w

theorem rewriteSection_place {name : Text} (h : rewriteSection t removeArgs e name = .ok e')
    (hs : e.sections[i]? = some s) :
    ∃ s', e'.sections[i]? = some s' ∧
      (s.name = name ∧ FirstAt e.names i → wrap t removeArgs s = .ok s') ∧
      (¬(s.name = name ∧ FirstAt e.names i) → s' = s) := by
  rw [rewriteSection] at h
  -- The section is the first of the name that is rewritten, or not.
  by_cases hplace : s.name = name ∧ FirstAt e.names i
  · obtain ⟨rfl, hfirst⟩ := hplace
    rw [get_place hs hfirst] at h
    rw [wrap]
    cases hexec : s.get execKey with
    | none =>
        rw [hexec] at h
        cases h
        exact ⟨s, hs, fun _ => rfl, fun _ => rfl⟩
    | some exec =>
        rw [hexec] at h
        obtain ⟨w, hw, he⟩ := bind_eq_ok h
        cases he
        refine ⟨s.set execKey w, ?_, fun _ => ?_, fun hnot => absurd ⟨rfl, hfirst⟩ hnot⟩
        · rw [Entry.set, change_place hs, if_pos ⟨rfl, hfirst⟩]
        · exact bind_eq_ok_iff.mpr ⟨w, hw, rfl⟩
  · refine ⟨s, ?_, fun h => absurd h hplace, fun _ => rfl⟩
    split at h
    · cases h
      exact hs
    · obtain ⟨w, _, he⟩ := bind_eq_ok h
      cases he
      rw [Entry.set, change_place hs, if_neg hplace]

theorem foldlM_rewriteSection_names {names : List Text}
    (h : names.foldlM (rewriteSection t removeArgs) e = .ok e') :
    e'.names = e.names := by
  -- Each pass leaves the names.
  induction names generalizing e with
  | nil =>
      cases h
      rfl
  | cons name names ih =>
      rw [List.foldlM_cons] at h
      obtain ⟨e₁, he₁, h⟩ := bind_eq_ok h
      exact (ih h).trans (rewriteSection_names he₁)

theorem foldlM_rewriteSection_place {names : List Text}
    (h : names.foldlM (rewriteSection t removeArgs) e = .ok e') (hs : e.sections[i]? = some s) :
    ∃ s', e'.sections[i]? = some s' ∧ s'.name = s.name ∧
      (FirstAt e.names i → wrapTimes t removeArgs (names.count s.name) s = .ok s') ∧
      (¬FirstAt e.names i → s' = s) := by
  -- Pass by pass; a section is wrapped in those for its own name, if it is the first of it.
  induction names generalizing e s with
  | nil =>
      cases h
      exact ⟨s, hs, rfl, fun _ => rfl, fun _ => rfl⟩
  | cons name names ih =>
      rw [List.foldlM_cons] at h
      obtain ⟨e₁, he₁, h⟩ := bind_eq_ok h
      obtain ⟨s₁, hs₁, hwrap, hsame⟩ := rewriteSection_place he₁ hs
      have hnames := rewriteSection_names he₁
      obtain ⟨s', hs', hname', htimes, hlater⟩ := ih h hs₁
      rw [hnames] at htimes hlater
      refine ⟨s', hs', ?_⟩
      -- The pass is for this section, or for another.
      by_cases hplace : s.name = name ∧ FirstAt e.names i
      · obtain ⟨rfl, hfirst⟩ := hplace
        have hs₁name := wrap_name (hwrap ⟨rfl, hfirst⟩)
        rw [hs₁name] at htimes hname'
        refine ⟨hname', fun _ => ?_, fun hnot => absurd hfirst hnot⟩
        rw [List.count_cons_self]
        exact bind_eq_ok_iff.mpr ⟨s₁, hwrap ⟨rfl, hfirst⟩, htimes hfirst⟩
      · obtain rfl := hsame hplace
        refine ⟨hname', fun hfirst => ?_, hlater⟩
        rw [List.count_cons_of_ne fun heq => hplace ⟨heq.symm, hfirst⟩]
        exact htimes hfirst

end Rewriting

/-! ## Section 4: The Rules of an Installed Entry -/

section Finishing

variable {t : Target} {e : Entry} {i : Nat} {s : Section}

/-- What became of a section at its place: the values of all other keys are left, and all of it
where it is not the first of the name. -/
structure Changed (e e' : Entry) (i : Nat) (name key : Text) (values : List Text) (s s' : Section) :
    Prop where
  names : e'.names = e.names
  place : e'.sections[i]? = some s'
  sameName : s'.name = s.name
  others : ∀ other, other ≠ key → s'.values other = s.values other
  first : s.name = name → FirstAt e.names i → s'.values key = values
  later : ¬(s.name = name ∧ FirstAt e.names i) → s' = s

theorem changed_of {name key : Text} {values : List Text} {f : Section → Section}
    (hf : ∀ s, (f s).name = s.name) (hkey : ∀ s, (f s).values key = values)
    (hothers : ∀ s other, other ≠ key → (f s).values other = s.values other)
    (hs : e.sections[i]? = some s) :
    ∃ s', Changed e (e.change name f) i name key values s s' := by
  have hplace := @change_place e name f i s hs
  -- The change is made at this place, or at another.
  by_cases h : s.name = name ∧ FirstAt e.names i
  · rw [if_pos h] at hplace
    exact ⟨f s, names_change hf, hplace, hf s, hothers s, fun _ _ => hkey s,
      fun hnot => absurd h hnot⟩
  · rw [if_neg h] at hplace
    exact ⟨s, names_change hf, hplace, rfl, fun _ _ => rfl,
      fun hname hfirst => absurd ⟨hname, hfirst⟩ h, fun _ => rfl⟩

theorem set_changed (name key value : Text) (hs : e.sections[i]? = some s) :
    ∃ s', Changed e (e.set name key value) i name key [value] s s' :=
  changed_of (fun s => s.name_set key value) (fun s => s.values_set key value)
    (fun s _ h => s.values_set_of_ne value h) hs

theorem remove_changed (name key : Text) (hs : e.sections[i]? = some s) :
    ∃ s', Changed e (e.remove name key) i name key [] s s' :=
  changed_of (fun s => s.name_remove key) (fun s => s.values_remove key)
    (fun s _ h => s.values_remove_of_ne h) hs

theorem foldl_remove_place (names : List Text) (hs : e.sections[i]? = some s) :
    (names.foldl (fun e name => e.remove name tryExecKey) e).names = e.names ∧
      ∃ s', (names.foldl (fun e name => e.remove name tryExecKey) e).sections[i]? = some s' ∧
        s'.name = s.name ∧ (¬FirstAt e.names i → s' = s) ∧
        (∀ key, key ≠ tryExecKey → s'.values key = s.values key) ∧
        (FirstAt e.names i → s.name ∈ names ∨ s.values tryExecKey = [] →
          s'.values tryExecKey = []) := by
  -- Name by name; the second of one name finds nothing to remove.
  induction names generalizing e s with
  | nil => exact ⟨rfl, s, hs, rfl, fun _ => rfl, fun _ _ => rfl, fun _ h => by simpa using h⟩
  | cons name names ih =>
      obtain ⟨s₁, h₁⟩ := remove_changed name tryExecKey hs
      obtain ⟨hnames, s', hs', hname, hlater, hvalues, htry⟩ := ih h₁.place
      rw [h₁.names] at hnames hlater htry
      rw [h₁.sameName] at hname htry
      refine ⟨hnames, s', hs', hname, fun hnot => ?_, fun key hkey => ?_, fun hfirst hor => ?_⟩
      · rw [hlater hnot, h₁.later fun h => hnot h.2]
      · rw [hvalues key hkey, h₁.others key hkey]
      · refine htry hfirst ?_
        by_cases hplace : s.name = name
        · exact Or.inr (h₁.first hplace hfirst)
        · rw [h₁.later fun h => hplace h.1]
          exact hor.imp_left fun hmem => (List.mem_cons.mp hmem).resolve_left hplace

/-- The values of an installed entry's section. -/
structure Finished (t : Target) (e : Entry) (i : Nat) (s s' : Section) : Prop where
  exec : s'.values execKey = s.values execKey ∨
    s.name = mainSection ∧ s.values execKey = [] ∧ ∃ args, s'.values execKey = [t.exec args]
  tryExec : FirstAt e.names i → isExecSection s.name → s'.values tryExecKey = []
  activation : FirstAt e.names i → s.name = mainSection → s'.values dbusKey = ["false".toList]
  later : ¬FirstAt e.names i → s' = s
  others : s.name ≠ mainSection → s'.values dbusKey = s.values dbusKey

theorem ensureExec_place (hs : e.sections[i]? = some s) :
    (ensureExec e t).names = e.names ∧ ∃ s', (ensureExec e t).sections[i]? = some s' ∧
      s'.name = s.name ∧ (¬(s.name = mainSection ∧ FirstAt e.names i) → s' = s) ∧
      (∀ key, key ≠ execKey → s'.values key = s.values key) ∧
      (s'.values execKey = s.values execKey ∨
        s.name = mainSection ∧ s.values execKey = [] ∧ ∃ args, s'.values execKey = [t.exec args]) := by
  rw [ensureExec]
  split
  · rename_i hnone
    obtain ⟨s', h⟩ := set_changed mainSection execKey (t.exec
      (if (e.get mainSection "MimeType".toList).isSome then ["%U".toList] else [])) hs
    refine ⟨h.names, s', h.place, h.sameName, h.later, h.others, ?_⟩
    -- The main section's place, or another.
    by_cases hplace : s.name = mainSection ∧ FirstAt e.names i
    · obtain ⟨hmain, hfirst⟩ := hplace
      refine Or.inr ⟨hmain, ?_, _, h.first hmain hfirst⟩
      rw [← hmain, get_place hs hfirst, s.get_eq] at hnone
      exact List.head?_eq_none_iff.mp (Option.isNone_iff_eq_none.mp hnone)
    · exact Or.inl (by rw [h.later hplace])
  · exact ⟨rfl, s, hs, rfl, fun _ => rfl, fun _ _ => rfl, Or.inl rfl⟩

theorem nameActions_changed (hs : e.sections[i]? = some s) :
    ∃ s' values, Changed e (nameActions e) i mainSection "Actions".toList values s s' := by
  rw [nameActions]
  split
  · obtain ⟨s', h⟩ := remove_changed mainSection "Actions".toList hs
    exact ⟨s', _, h⟩
  · obtain ⟨s', h⟩ := set_changed mainSection "Actions".toList (e.actions.flatMap (· ++ [';'])) hs
    exact ⟨s', _, h⟩

theorem finish_place (hs : e.sections[i]? = some s) :
    ∃ s', (finish e t).sections[i]? = some s' ∧ Finished t e i s s' := by
  obtain ⟨hnames₁, s₁, hs₁, hname₁, hlater₁, hothers₁, hexec₁⟩ := ensureExec_place (t := t) hs
  obtain ⟨hnames₂, s₂, hs₂, hname₂, hlater₂, hothers₂, htry₂⟩ :=
    foldl_remove_place (ensureExec e t).execSections hs₁
  obtain ⟨s₃, h₃⟩ := set_changed mainSection "Type".toList "Application".toList hs₂
  obtain ⟨s₄, h₄⟩ := remove_changed mainSection "Hidden".toList h₃.place
  obtain ⟨s₅, h₅⟩ := set_changed mainSection dbusKey "false".toList h₄.place
  obtain ⟨s₆, values, h₆⟩ := nameActions_changed h₅.place
  -- The names stay as they are.
  have names₂ := hnames₂.trans hnames₁
  have names₃ := h₃.names.trans names₂
  have names₄ := h₄.names.trans names₃
  have names₅ := h₅.names.trans names₄
  have name₂ := hname₂.trans hname₁
  have name₃ := h₃.sameName.trans name₂
  have name₄ := h₄.sameName.trans name₃
  have name₅ := h₅.sameName.trans name₄
  -- The last three rules are for the main section alone.
  have hother : s.name ≠ mainSection ∨ ¬FirstAt e.names i → s₆ = s₂ := by
    intro h
    have hnot : ∀ {s' : Section} {e' : Entry}, s'.name = s.name → e'.names = e.names →
        ¬(s'.name = mainSection ∧ FirstAt e'.names i) := by
      rintro s' e' hname hnames ⟨hmain, hfirst⟩
      rw [hnames] at hfirst
      exact h.elim (fun hne => hne (hname.symm.trans hmain)) fun hlater => hlater hfirst
    rw [h₆.later (hnot name₅ names₅), h₅.later (hnot name₄ names₄), h₄.later (hnot name₃ names₃),
      h₃.later (hnot name₂ names₂)]
  have hvalues : ∀ key, key ≠ "Type".toList → key ≠ "Hidden".toList → key ≠ dbusKey →
      key ≠ "Actions".toList → s₆.values key = s₂.values key := by
    intro key htype hhidden hdbus hactions
    rw [h₆.others key hactions, h₅.others key hdbus, h₄.others key hhidden, h₃.others key htype]
  refine ⟨s₆, h₆.place, ?_, ?_, ?_, ?_, ?_⟩
  · rw [hvalues execKey (by decide) (by decide) (by decide) (by decide),
      hothers₂ execKey (by decide)]
    exact hexec₁
  · intro hfirst hsection
    rw [hvalues tryExecKey (by decide) (by decide) (by decide) (by decide)]
    refine htry₂ (by rwa [hnames₁]) (Or.inl ?_)
    -- The main section has its command line by now.
    have hmem : s₁ ∈ (ensureExec e t).sections := List.mem_of_getElem? hs₁
    exact List.mem_map.mpr ⟨s₁, List.mem_filter.mpr ⟨hmem, by rwa [hname₁]⟩, rfl⟩
  · intro hfirst hmain
    rw [h₆.others dbusKey (by decide)]
    exact h₅.first (name₄.trans hmain) (by rwa [names₄])
  · intro hlater
    rw [hother (Or.inr hlater), hlater₂ (by rwa [hnames₁]), hlater₁ fun h => hlater h.2]
  · intro hne
    rw [hother (Or.inl hne), hothers₂ dbusKey (by decide), hothers₁ dbusKey (by decide)]

end Finishing

/-! ## Section 5: Nothing Runs Outside -/

section Counting

variable {t : Target} {removeArgs : List Text} {e : Entry} {i : Nat} {s s' : Section}

theorem rewritten_args {v w : Text} (h : t.rewritten v removeArgs = .ok w) :
    ∃ launch, launchFor v removeArgs = .ok launch ∧
      splitExec w = .ok (t.command ++ launch.argv) := by
  obtain ⟨launch, hlaunch, hw⟩ := bind_eq_ok h
  cases hw
  exact ⟨launch, hlaunch, splitPlain_joinExec _ []⟩

/-- A wrapped line has five arguments more, or seven. -/
theorem length_wrapped {v : Text} {args : List Text} {launch : Launch} (t : Target)
    (hargs : splitExec v = .ok args) (hlaunch : launchFor v [] = .ok launch) :
    args.length + 5 ≤ (t.command ++ launch.argv).length ∧
      (t.command ++ launch.argv).length ≤ args.length + 7 := by
  -- Nothing is removed where no arguments are given.
  have hkeep : ∀ l : List Text, l.filter (keep []) = l := fun l =>
    List.filter_eq_self.mpr fun a _ => by simp [keep]
  obtain ⟨args', hargs', hclassify⟩ := bind_eq_ok hlaunch
  obtain rfl : args = args' := Except.ok.inj (hargs.symm.trans hargs')
  -- A value without a program was refused.
  cases args with
  | nil => cases hclassify
  | cons program rest =>
      rw [classify] at hclassify
      split at hclassify
      all_goals
        cases hclassify
        rw [hkeep]
        simp [Launch.argv, Target.command]

theorem wrap_some {v : Text} (hv : s.get execKey = some v) (h : wrap t removeArgs s = .ok s') :
    ∃ w, t.rewritten v removeArgs = .ok w ∧ s' = s.set execKey w := by
  rw [wrap, hv] at h
  obtain ⟨w, hw, hs'⟩ := bind_eq_ok h
  cases hs'
  exact ⟨w, hw, rfl⟩

theorem get_set_exec (s : Section) (w : Text) : (s.set execKey w).get execKey = some w := by
  rw [Section.get_eq, s.values_set]
  rfl

/-- Every pass wraps the line again. -/
theorem length_wrapTimes {k : Nat} {v : Text} {args : List Text} (hv : s.get execKey = some v)
    (hargs : splitExec v = .ok args) (h : wrapTimes t [] k s = .ok s') :
    ∃ v' args', s'.get execKey = some v' ∧ splitExec v' = .ok args' ∧
      args.length + 5 * k ≤ args'.length := by
  -- Each pass adds five arguments at least.
  induction k generalizing s v args with
  | zero =>
      cases h
      exact ⟨v, args, hv, hargs, Nat.le_refl _⟩
  | succ k ih =>
      obtain ⟨s₁, hs₁, h⟩ := bind_eq_ok h
      obtain ⟨w, hw, rfl⟩ := wrap_some hv hs₁
      obtain ⟨launch, hlaunch, hsplit⟩ := rewritten_args hw
      obtain ⟨v', args', hv', hargs', hle⟩ := ih (get_set_exec s w) hsplit h
      have := (length_wrapped t hargs hlaunch).1
      exact ⟨v', args', hv', hargs', by omega⟩

theorem wrapTimes_none (hnone : s.values execKey = []) (k : Nat)
    (h : wrapTimes t removeArgs k s = .ok s') : s' = s := by
  -- Without a value there is nothing to wrap.
  have hget : s.get execKey = none := by
    rw [s.get_eq, hnone]
    rfl
  induction k with
  | zero => exact (Except.ok.inj h).symm
  | succ k ih =>
      obtain ⟨s₁, hs₁, h⟩ := bind_eq_ok h
      rw [wrap, hget] at hs₁
      cases hs₁
      exact ih h

/-- Only `Exec` lines are wrapped. -/
theorem wrapTimes_others {k : Nat} {key : Text} (hkey : key ≠ execKey)
    (h : wrapTimes t removeArgs k s = .ok s') : s'.values key = s.values key := by
  induction k generalizing s with
  | zero => rw [← Except.ok.inj h]
  | succ k ih =>
      obtain ⟨s₁, hs₁, h⟩ := bind_eq_ok h
      rw [ih h]
      cases hv : s.get execKey with
      | none =>
          rw [wrap, hv] at hs₁
          rw [← Except.ok.inj hs₁]
      -- The other keys are left by each pass.
      | some v =>
          obtain ⟨w, _, rfl⟩ := wrap_some hv hs₁
          exact s.values_set_of_ne w hkey

theorem count_execSections (hname : isExecSection s.name) :
    e.execSections.count s.name = e.names.count s.name := by
  have hnames : e.execSections = e.names.filter (isExecSection ·) := by
    rw [Entry.execSections, Entry.names, List.filter_map]
    rfl
  rw [hnames, List.count_filter (by simpa using hname)]

end Counting

section Confinement

variable {t : Target} {removeArgs : List Text} {e e' : Entry} {i : Nat} {s s' : Section}

theorem get_set {name other : Text} {w v : Text}
    (h : (e.set name execKey w).get other execKey = some v) :
    other = name ∧ v = w ∨ other ≠ name ∧ e.get other execKey = some v := by
  rw [Entry.get, Entry.set, Entry.change,
    find?_mapFirst fun s : Section => s.name_set execKey w] at h
  obtain ⟨s, hs, hv⟩ := Option.bind_eq_some_iff.mp h
  obtain ⟨s₀, hs₀, rfl⟩ := Option.map_eq_some_iff.mp hs
  -- The section's own key, or that of another section.
  by_cases heq : other = name
  · rw [if_pos heq, get_set_exec] at hv
    exact Or.inl ⟨heq, (Option.some.inj hv).symm⟩
  · rw [if_neg heq] at hv
    refine Or.inr ⟨heq, ?_⟩
    rw [Entry.get, hs₀]
    exact hv

theorem launchFor_joinExec (launch : Launch) (removeArgs : List Text) :
    ∃ l, launchFor (joinExec (t.command ++ launch.argv)) removeArgs = .ok l := by
  have hsplit : splitExec (joinExec (t.command ++ launch.argv)) = .ok (t.command ++ launch.argv) :=
    splitPlain_joinExec _ []
  -- The program's path has a slash, or is `env`, which keeps the whole line.
  by_cases hprogram : t.psbox = "env".toList ∨ '/' ∈ t.psbox
  · exact ⟨_, bind_eq_ok_iff.mpr ⟨_, hsplit, if_pos hprogram⟩⟩
  · exact ⟨_, bind_eq_ok_iff.mpr ⟨_, hsplit, if_neg hprogram⟩⟩

theorem launchFor_isOk {v : Text} {launch : Launch} {removeArgs : List Text}
    (h : launchFor v removeArgs = .ok launch) (removeArgs' : List Text) :
    ∃ l, launchFor v removeArgs' = .ok l := by
  obtain ⟨args, hargs, hclassify⟩ := bind_eq_ok h
  cases args with
  | nil => cases hclassify
  | cons program rest =>
      by_cases hprogram : program = "env".toList ∨ '/' ∈ program
      · exact ⟨_, bind_eq_ok_iff.mpr ⟨_, hargs, if_pos hprogram⟩⟩
      · exact ⟨_, bind_eq_ok_iff.mpr ⟨_, hargs, if_neg hprogram⟩⟩

/-- Lines that can be read are rewritten, to lines that can be read. -/
theorem rewriteSection_of_readable (he : Readable e) {name : Text} (hname : isExecSection name) :
    ∃ e', rewriteSection t removeArgs e name = .ok e' ∧ Readable e' := by
  rw [rewriteSection]
  split
  · exact ⟨e, rfl, he⟩
  · rename_i v hv
    obtain ⟨whole, hwhole⟩ := he name hname v hv
    obtain ⟨launch, hlaunch⟩ := launchFor_isOk hwhole removeArgs
    refine ⟨_, bind_eq_ok_iff.mpr ⟨_, bind_eq_ok_iff.mpr ⟨launch, hlaunch, rfl⟩, rfl⟩, ?_⟩
    intro other hother v' hv'
    rcases get_set hv' with ⟨_, rfl⟩ | ⟨_, hv'⟩
    · exact launchFor_joinExec launch []
    · exact he other hother v' hv'

theorem rewrite_of_readable (he : Readable e) (t : Target) (removeArgs : List Text) :
    ∃ e', rewrite e t removeArgs = .ok e' := by
  -- Name by name.
  have hfold : ∀ names : List Text, (∀ n ∈ names, isExecSection n) → ∀ e, Readable e →
      ∃ e', names.foldlM (rewriteSection t removeArgs) e = .ok e' := by
    intro names
    induction names with
    | nil => exact fun _ e _ => ⟨e, rfl⟩
    | cons name names ih =>
        intro hnames e he
        obtain ⟨hname, hnames⟩ := List.forall_mem_cons.mp hnames
        obtain ⟨e₁, he₁, hread⟩ := @rewriteSection_of_readable t removeArgs e he name hname
        obtain ⟨e', he'⟩ := ih hnames e₁ hread
        exact ⟨e', by rw [List.foldlM_cons]; exact bind_eq_ok_iff.mpr ⟨e₁, he₁, he'⟩⟩
  refine hfold _ (fun n hn => ?_) e he
  obtain ⟨s, hs, rfl⟩ := List.mem_map.mp hn
  exact (List.mem_filter.mp hs).2

/-- Where rewriting does not fail, the lines could be read. -/
theorem readable_of_rewrite (h : rewrite e t removeArgs = .ok e') : Readable e := by
  intro name hname v hv
  obtain ⟨s, hs, hget⟩ := Option.bind_eq_some_iff.mp hv
  obtain ⟨i, hi, rfl, hfirst⟩ := exists_place_of_find? hs
  obtain ⟨s', _, _, htimes, _⟩ := foldlM_rewriteSection_place h hi
  -- The name is listed, so there is a pass for it.
  have hpos : 0 < e.execSections.count s.name := by
    rw [count_execSections hname, List.count_pos_iff]
    exact List.mem_map_of_mem (List.mem_of_getElem? hi)
  obtain ⟨k, hk⟩ := Nat.exists_eq_succ_of_ne_zero hpos.ne'
  have hwrap := htimes hfirst
  rw [hk] at hwrap
  obtain ⟨s₁, hs₁, _⟩ := bind_eq_ok hwrap
  obtain ⟨w, hw, _⟩ := wrap_some hget hs₁
  obtain ⟨launch, hlaunch, _⟩ := rewritten_args hw
  exact launchFor_isOk hlaunch []

theorem names_removes (names : List Text) (e : Entry) :
    (names.foldl (fun e name => e.remove name tryExecKey) e).names = e.names := by
  induction names generalizing e with
  | nil => rfl
  | cons name names ih =>
      refine (ih _).trans ?_
      exact names_change fun s => s.name_remove tryExecKey

theorem finish_names (e : Entry) (t : Target) : (finish e t).names = e.names := by
  -- None of the rules adds or removes a section.
  have hset : ∀ (e : Entry) (name key value : Text), (e.set name key value).names = e.names :=
    fun _ _ _ _ => names_change fun s => s.name_set _ _
  have hremove : ∀ (e : Entry) (name key : Text), (e.remove name key).names = e.names :=
    fun _ _ _ => names_change fun s => s.name_remove _
  have hactions : ∀ e : Entry, (nameActions e).names = e.names := by
    intro e
    rw [nameActions]
    split
    · exact hremove _ _ _
    · exact hset _ _ _ _
  have hexec : (ensureExec e t).names = e.names := by
    rw [ensureExec]
    split
    · exact hset _ _ _ _
    · rfl
  rw [finish, hactions, hset, hremove, hset, removeTryExec, names_removes, hexec]

/-- What becomes of a section at its place. -/
theorem place_of_rewrite (h : rewrite e t removeArgs = .ok e') (hs : e.sections[i]? = some s) :
    ∃ s₁ s', (finish e' t).sections[i]? = some s' ∧ s₁.name = s.name ∧
      (FirstAt e.names i → wrapTimes t removeArgs (e.execSections.count s.name) s = .ok s₁) ∧
      (¬FirstAt e.names i → s₁ = s) ∧ Finished t e i s₁ s' := by
  have hnames := foldlM_rewriteSection_names h
  obtain ⟨s₁, hs₁, hname, htimes, hlater⟩ := foldlM_rewriteSection_place h hs
  obtain ⟨s', hs', hfinished⟩ := finish_place (t := t) hs₁
  refine ⟨s₁, s', hs', hname, htimes, hlater, ?_⟩
  exact ⟨hfinished.exec, fun hf => hfinished.tryExec (by rwa [hnames]),
    fun hf => hfinished.activation (by rwa [hnames]), fun hf => hfinished.later (by rwa [hnames]),
    hfinished.others⟩

theorem forall₂_iff_place {α β : Type*} {R : α → β → Prop} {l : List α} {l' : List β}
    (hlength : l.length = l'.length) :
    List.Forall₂ R l l' ↔ ∀ (i : Nat) x y, l[i]? = some x → l'[i]? = some y → R x y := by
  rw [List.forall₂_iff_get, and_iff_right hlength]
  constructor
  · intro h i x y hx hy
    obtain ⟨hi, rfl⟩ := List.getElem?_eq_some_iff.mp hx
    obtain ⟨hi', rfl⟩ := List.getElem?_eq_some_iff.mp hy
    exact h i hi hi'
  · intro h i hi hi'
    exact h i _ _ (List.getElem?_eq_getElem hi) (List.getElem?_eq_getElem hi')

theorem length_finish (h : rewrite e t removeArgs = .ok e') :
    e.sections.length = (finish e' t).sections.length := by
  have hnames := (finish_names e' t).trans (foldlM_rewriteSection_names h)
  have := congrArg List.length hnames
  simpa [Entry.names] using this.symm

theorem count_of_earlier {j : Nat} (hi : e.sections[i]? = some s) (hj : e.sections[j]? = some s')
    (hij : i < j) (hname : s.name = s'.name) : 2 ≤ e.names.count s.name := by
  -- One before the place, and one from there on.
  have hsplit : e.names = e.names.take j ++ e.names.drop j := (List.take_append_drop _ _).symm
  have hleft : s.name ∈ e.names.take j := by
    refine List.mem_of_getElem? (i := i) ?_
    rw [List.getElem?_take_of_lt hij]
    simp [Entry.names, hi]
  have hright : s.name ∈ e.names.drop j := by
    refine List.mem_of_getElem? (i := 0) ?_
    rw [List.getElem?_drop]
    simp [Entry.names, hj, hname]
  rw [hsplit, List.count_append]
  have := List.count_pos_iff.mpr hleft
  have := List.count_pos_iff.mpr hright
  omega

/-- A section that is not the first of its name stands behind another. -/
theorem earlier_of_not_first (hs : e.sections[i]? = some s) (hlater : ¬FirstAt e.names i) :
    ∃ s₀, s₀.name = s.name ∧
      ∀ R : Section → Section → Prop, e.sections.Pairwise R → R s₀ s := by
  obtain ⟨j, s₀, hji, hs₀, hname⟩ := exists_earlier hs hlater
  refine ⟨s₀, hname, fun R hR => ?_⟩
  obtain ⟨hi, rfl⟩ := List.getElem?_eq_some_iff.mp hs
  obtain ⟨hj, rfl⟩ := List.getElem?_eq_some_iff.mp hs₀
  exact List.pairwise_iff_getElem.mp hR j i hj hi hji

/-- A section with an `Exec` line is the only one of its name. -/
theorem Harmless.count (he : Harmless e) (hs : s ∈ e.sections) (hsection : isExecSection s.name)
    (hexec : s.values execKey ≠ []) : e.names.count s.name ≤ 1 := by
  have hcount : e.names.count s.name = (e.sections.filter (·.name == s.name)).length := by
    rw [Entry.names, List.count, List.countP_map, List.countP_eq_length_filter]
    rfl
  have hmem : s ∈ e.sections.filter (·.name == s.name) := List.mem_filter.mpr ⟨hs, by simp⟩
  have hname : ∀ x ∈ e.sections.filter (·.name == s.name), x.name = s.name := fun x hx => by
    simpa using (List.mem_filter.mp hx).2
  -- Of two sections of the name one has no command line.
  have hpair := he.repeated.filter (p := fun x => x.name == s.name)
  rw [hcount]
  generalize e.sections.filter (·.name == s.name) = l at hmem hname hpair
  match l with
  | [] => exact Nat.zero_le _
  | [x] => exact Nat.le_refl _
  | x :: y :: rest =>
      have hx := hname x List.mem_cons_self
      rw [List.pairwise_cons] at hpair
      rcases List.mem_cons.mp hmem with rfl | hrest
      · have hy := hname y (by simp)
        exact absurd (hpair.1 y List.mem_cons_self hy.symm hsection).1 hexec
      · exact absurd (hpair.1 s hrest hx (hx ▸ hsection)).2.1 hexec

theorem get_of_values {key : Text} (h : s.values key ≠ []) :
    ∃ v, s.get key = some v ∧ v ∈ s.values key := by
  obtain ⟨v, rest, hv⟩ := List.exists_cons_of_ne_nil h
  exact ⟨v, by rw [s.get_eq, hv]; rfl, by simp [hv]⟩

theorem get_of_no_values {key : Text} (h : s.values key = []) : s.get key = none := by
  rw [s.get_eq, h]
  rfl

/-- A section that is rewritten just once is wrapped once. -/
theorem contained_of_harmless (h : rewrite e t removeArgs = .ok e') (he : Harmless e) :
    List.Forall₂ (Contained t removeArgs) e.sections (finish e' t).sections := by
  rw [forall₂_iff_place (length_finish h)]
  intro i s s' hs hs'
  obtain ⟨s₁, s'', hplace, hname, htimes, hlater, hfinished⟩ := place_of_rewrite h hs
  obtain rfl : s'' = s' := Option.some.inj (hplace.symm.trans hs')
  by_cases hfirst : FirstAt e.names i
  -- The first section of its name, or a later one.
  · have hwrapped := htimes hfirst
    refine ⟨fun hsection v hv => ?_, fun hsection => ?_, fun v hv => ?_⟩
    · by_cases hexec : s.values execKey = []
      · obtain rfl := wrapTimes_none hexec _ hwrapped
        rw [get_of_no_values hexec]
        rcases hfinished.exec with hsame | ⟨_, _, args, hown⟩
        · rw [hsame, hexec] at hv
          cases hv
        · obtain rfl : v = t.exec args := by simpa [hown] using hv
          exact ⟨args, splitPlain_joinExec _ []⟩
      · obtain ⟨host, hhost, _⟩ := get_of_values hexec
        -- It is the only one that counts, so it is wrapped once.
        have hcount : e.execSections.count s.name = 1 := by
          have hle := he.count (List.mem_of_getElem? hs) hsection hexec
          have hpos : 0 < e.names.count s.name :=
            List.count_pos_iff.mpr (List.mem_map_of_mem (List.mem_of_getElem? hs))
          rw [count_execSections hsection]
          omega
        rw [hcount] at hwrapped
        obtain ⟨s₂, hs₂, hsame⟩ := bind_eq_ok hwrapped
        obtain rfl : s₂ = s₁ := Except.ok.inj hsame
        obtain ⟨w, hw, rfl⟩ := wrap_some hhost hs₂
        rw [hhost]
        rcases hfinished.exec with hsame | ⟨_, hnone, _⟩
        · obtain rfl : v = w := by simpa [hsame, Section.values_set] using hv
          exact rewritten_args hw
        · rw [Section.values_set] at hnone
          cases hnone
    · exact hfinished.tryExec hfirst (by rwa [hname])
    · by_cases hmain : s.name = mainSection
      · simpa [hfinished.activation hfirst (hname.trans hmain)] using hv
      · rw [hfinished.others (by rwa [hname]), wrapTimes_others (by decide) hwrapped] at hv
        exact he.activation i s hs (fun hboth => hmain hboth.1) v hv
  · -- A section that is left as it is.
    obtain rfl := hlater hfirst
    obtain rfl := hfinished.later hfirst
    obtain ⟨s₀, hname₀, hbehind⟩ := earlier_of_not_first hs hfirst
    have hpair := hbehind _ he.repeated hname₀
    refine ⟨fun hsection v hv => ?_, fun hsection => ?_, ?_⟩
    · rw [(hpair (hname₀ ▸ hsection)).2.1] at hv
      cases hv
    · exact (hpair (hname₀ ▸ hsection)).2.2
    · exact he.activation i s'' hs fun hboth => hfirst hboth.2

/-- A line that is left as it is was not wrapped. -/
theorem no_exec_of_contained (h : Contained t [] s s) (hsection : isExecSection s.name) :
    s.values execKey = [] := by
  -- A line that was wrapped is longer than itself.
  by_contra hexec
  obtain ⟨v, hget, hv⟩ := get_of_values hexec
  have hwrapped := h.exec hsection v hv
  rw [hget] at hwrapped
  obtain ⟨launch, hlaunch, hsplit⟩ := hwrapped
  have := (length_wrapped t hsplit hlaunch).1
  omega

/-- Where nothing runs outside, whatever arguments are removed, the entry was harmless. -/
theorem harmless_of_contained (h : rewrite e t [] = .ok e')
    (he : List.Forall₂ (Contained t []) e.sections (finish e' t).sections) : Harmless e := by
  rw [forall₂_iff_place (length_finish h)] at he
  -- A later section of a name is left as it is.
  have hkept : ∀ i s, e.sections[i]? = some s → ¬FirstAt e.names i → Contained t [] s s := by
    intro i s hs hlater
    obtain ⟨s₁, s', hplace, _, _, hsame, hfinished⟩ := place_of_rewrite h hs
    obtain rfl := hsame hlater
    obtain rfl := hfinished.later hlater
    exact he i _ _ hs hplace
  constructor
  · rw [List.pairwise_iff_getElem]
    intro i j hi hj hij hname hsection
    have hs : e.sections[i]? = some e.sections[i] := List.getElem?_eq_getElem hi
    have hs' : e.sections[j]? = some e.sections[j] := List.getElem?_eq_getElem hj
    have hlater : ¬FirstAt e.names j := by
      intro hfirst
      refine hfirst e.sections[j].name (by simp [Entry.names, hs']) ?_
      rw [← hname]
      refine List.mem_of_getElem? (i := i) ?_
      rw [List.getElem?_take_of_lt hij]
      simp [Entry.names, hs]
    -- So it has no command line, or the first one was wrapped more than once.
    have hcontained := hkept j _ hs' hlater
    refine ⟨?_, no_exec_of_contained hcontained (hname ▸ hsection),
      hcontained.tryExec (hname ▸ hsection)⟩
    by_cases hfirst : FirstAt e.names i
    · -- The first section of the name is wrapped once for each.
      by_contra hexec
      obtain ⟨v, hget, _⟩ := get_of_values hexec
      obtain ⟨launch, hlaunch⟩ := readable_of_rewrite h _ hsection v
        ((get_place hs hfirst execKey).trans hget)
      obtain ⟨args, hargs, _⟩ := bind_eq_ok hlaunch
      obtain ⟨s₁, s', hplace, _, htimes, _, hfinished⟩ := place_of_rewrite h hs
      obtain ⟨v', args', hv', hargs', hle⟩ := length_wrapTimes hget hargs (htimes hfirst)
      have hcount := count_of_earlier hs hs' hij hname
      rw [← count_execSections hsection] at hcount
      have hmem : v' ∈ s₁.values execKey := by
        rw [s₁.get_eq] at hv'
        exact List.mem_of_mem_head? hv'
      rcases hfinished.exec with hsame | ⟨_, hnone, _⟩
      · have hwrapped := (he i _ _ hs hplace).exec hsection v' (hsame ▸ hmem)
        rw [hget] at hwrapped
        -- Wrapped twice it has more arguments than one launch gives it.
        obtain ⟨launch', hlaunch', hsplit⟩ := hwrapped
        obtain rfl := Except.ok.inj (hargs'.symm.trans hsplit)
        have := (length_wrapped t hargs hlaunch').2
        omega
      · rw [hnone] at hmem
        cases hmem
    · exact no_exec_of_contained (hkept i _ hs hfirst) hsection
  · intro i s hs hnot v hv
    obtain ⟨s₁, s', hplace, hname, htimes, hlater, hfinished⟩ := place_of_rewrite h hs
    refine (he i _ _ hs hplace).activation v ?_
    by_cases hfirst : FirstAt e.names i
    · have hmain : s.name ≠ mainSection := fun hmain => hnot ⟨hmain, hfirst⟩
      rwa [hfinished.others (by rwa [hname]), wrapTimes_others (by decide) (htimes hfirst)]
    · rwa [hfinished.later hfirst, hlater hfirst]

end Confinement

/-- Nothing of a host's text runs outside exactly when it is harmless, or is not installed since
an `Exec` line cannot be read. -/
theorem confined_iff (t : Target) (text : Text) :
    Confined t text ↔
      ∀ entry, Entry.parse text = .ok entry → Readable entry → Harmless entry := by
  constructor
  · intro h entry hparse hread
    obtain ⟨rewritten, hrewritten⟩ := rewrite_of_readable hread t []
    exact harmless_of_contained hrewritten (h entry [] rewritten hparse hrewritten)
  · intro h entry removeArgs rewritten hparse hrewritten
    exact contained_of_harmless hrewritten (h entry hparse (readable_of_rewrite hrewritten))

/-- With a second main section, the first is wrapped twice, and the second runs on the host. -/
theorem not_confined :
    ¬Confined ⟨"/usr/bin/psbox".toList, "box".toList, "app".toList⟩
      "[Desktop Entry]\nExec=a\n[Desktop Entry]\nExec=b\nTryExec=b\n".toList := by
  intro h
  have hparse : Entry.parse "[Desktop Entry]\nExec=a\n[Desktop Entry]\nExec=b\nTryExec=b\n".toList =
      .ok ⟨[], [⟨mainSection, [.key execKey "a".toList]⟩,
        ⟨mainSection, [.key execKey "b".toList, .key tryExecKey "b".toList]⟩]⟩ := by
    decide
  have hrewrite : (rewrite ⟨[], [⟨mainSection, [.key execKey "a".toList]⟩,
      ⟨mainSection, [.key execKey "b".toList, .key tryExecKey "b".toList]⟩]⟩
        ⟨"/usr/bin/psbox".toList, "box".toList, "app".toList⟩ []).isOk := by
    decide
  obtain ⟨rewritten, hrewritten⟩ := exists_of_isOk hrewrite
  have hharmless := harmless_of_contained hrewritten (h _ [] rewritten hparse hrewritten)
  exact absurd hharmless.repeated (by decide)

end Psbox.Desktop
