import Psbox.Desktop.RoundTrip

/-!
# Lines Under Changes

What holds of all lines of an entry, through the changes that are made to it: `AllLines` for a
property of lines, and `KeptOn` for the values of some keys being one line each. The lemmas about
`KeptOn` are equivalences: what a change leaves is one line just when what it writes is, as far as
what it replaces was.
-/

namespace Psbox.Desktop

open Psbox.Foundations

/-! ## Section 1: Lines of a Section -/

theorem mem_setKey_done {key value : Text} {l : Line} (ls : List Line) :
    l ∈ setKey key value true ls ↔ l ∈ ls ∧ l.value? key = none := by
  -- By induction over the lines; those of the key are gone.
  induction ls with
  | nil => simp [setKey]
  | cons l' ls ih =>
      rw [setKey]
      by_cases hl' : (l'.value? key).isSome
      · have hne : l'.value? key ≠ none := Option.isSome_iff_ne_none.mp hl'
        rw [if_pos hl', if_pos rfl, ih]
        constructor
        · rintro ⟨hl, hnone⟩
          exact ⟨List.mem_cons_of_mem _ hl, hnone⟩
        · rintro ⟨hl, hnone⟩
          refine ⟨(List.mem_cons.mp hl).resolve_left ?_, hnone⟩
          rintro rfl
          exact hne hnone
      · have hnone : l'.value? key = none := Option.not_isSome_iff_eq_none.mp hl'
        rw [if_neg hl', List.mem_cons, ih, List.mem_cons]
        constructor
        · rintro (rfl | ⟨hl, h⟩)
          · exact ⟨Or.inl rfl, hnone⟩
          · exact ⟨Or.inr hl, h⟩
        · rintro ⟨rfl | hl, h⟩
          · exact Or.inl rfl
          · exact Or.inr ⟨hl, h⟩

theorem mem_setKey {key value : Text} {l : Line} (ls : List Line)
    (h : ls.any fun l => (l.value? key).isSome) :
    l ∈ setKey key value false ls ↔ l = .key key value ∨ l ∈ ls ∧ l.value? key = none := by
  -- By induction over the lines, up to the first one of the key.
  induction ls with
  | nil => cases h
  | cons l' ls ih =>
      rw [setKey]
      by_cases hl' : (l'.value? key).isSome
      · have hne : l'.value? key ≠ none := Option.isSome_iff_ne_none.mp hl'
        rw [if_pos hl', if_neg (by decide), List.mem_cons, mem_setKey_done]
        refine or_congr_right (and_congr_left fun hnone => ?_)
        refine ⟨List.mem_cons_of_mem _, fun hl => (List.mem_cons.mp hl).resolve_left ?_⟩
        rintro rfl
        exact hne hnone
      · have hnone : l'.value? key = none := Option.not_isSome_iff_eq_none.mp hl'
        have hrest : ls.any fun l => (l.value? key).isSome := by simpa [hl'] using h
        rw [if_neg hl', List.mem_cons, ih hrest, List.mem_cons]
        constructor
        · rintro (rfl | hset | ⟨hl, h⟩)
          · exact Or.inr ⟨Or.inl rfl, hnone⟩
          · exact Or.inl hset
          · exact Or.inr ⟨Or.inr hl, h⟩
        · rintro (hset | ⟨rfl | hl, h⟩)
          · exact Or.inr (Or.inl hset)
          · exact Or.inl rfl
          · exact Or.inr (Or.inr ⟨hl, h⟩)

/-- The lines of a section after a key was set. -/
theorem Section.mem_set {s : Section} {key value : Text} {l : Line} :
    l ∈ (s.set key value).lines ↔ l = .key key value ∨ l ∈ s.lines ∧ l.value? key = none := by
  rw [Section.set]
  split
  · rename_i h
    exact mem_setKey s.lines h
  · rename_i h
    -- The key is new, so it joins the lines that are there.
    have hnone : ∀ l ∈ s.lines, l.value? key = none := by
      intro l hl
      by_contra hsome
      exact h (List.any_eq_true.mpr ⟨l, hl, Option.isSome_iff_ne_none.mpr hsome⟩)
    have hmem : l ∈ s.lines ↔
        l ∈ s.lines.rdropWhile (!·.isKey) ∨ l ∈ s.lines.rtakeWhile (!·.isKey) := by
      rw [← List.mem_append, List.rdropWhile_append_rtakeWhile]
    have hkept : l ∈ s.lines ∧ l.value? key = none ↔ l ∈ s.lines :=
      and_iff_left_of_imp (hnone l)
    rw [hkept, hmem, List.mem_append, List.mem_cons]
    exact ⟨fun h => by tauto, fun h => by tauto⟩

/-! ## Section 2: All Lines of an Entry -/

/-- Every line, with the name of its section. -/
def AllLines (Q : Text → Line → Prop) (e : Entry) : Prop :=
  ∀ s ∈ e.sections, ∀ l ∈ s.lines, Q s.name l

section Changes

variable {e : Entry} {name : Text} {f : Section → Section} {Q Q' : Text → Line → Prop}

/-- What holds of all lines after a change holds of those before it, and of what was written. -/
theorem allLines_change_iff {W : Prop} (hname : ∀ s, (f s).name = s.name)
    (hothers : ∀ m, m ≠ name → ∀ l, Q m l ↔ Q' m l)
    (hlater : ∀ s ∈ repeats (·.name = name) e.sections,
      (∀ l ∈ s.lines, Q name l) ↔ ∀ l ∈ s.lines, Q' name l)
    (hfirst : ∀ s, e.sections.find? (·.name = name) = some s →
      ((∀ l ∈ (f s).lines, Q name l) ↔ (∀ l ∈ s.lines, Q' name l) ∧ W))
    (hexists : (e.sections.find? (·.name = name)).isSome ∨ W) :
    AllLines Q (e.change name f) ↔ AllLines Q' e ∧ W := by
  have hmatch : ∀ s, e.sections.find? (·.name = name) = some s → s.name = name := fun s hs => by
    simpa using List.find?_some hs
  -- A section that repeats a name has it.
  have hrepeat : ∀ s ∈ repeats (·.name = name) e.sections, s.name = name := by
    have hall := (forall_match_iff (·.name = name) (fun s : Section => s.name = name) e.sections).mp
      (by simp)
    exact hall.2
  rw [AllLines, AllLines, Entry.change,
    forall_mem_mapFirst_iff (fun s : Section => decide (s.name = name)) f (fun s : Section => ∀ l ∈ s.lines, Q s.name l),
    forall_mem_iff_find? (fun s : Section => decide (s.name = name)) (fun s : Section => ∀ l ∈ s.lines, Q' s.name l)]
  -- Of other names, of the name, and the repetitions.
  have h₁ : (∀ s ∈ e.sections, ¬decide (s.name = name) → ∀ l ∈ s.lines, Q s.name l) ↔
      ∀ s ∈ e.sections, ¬decide (s.name = name) → ∀ l ∈ s.lines, Q' s.name l := by
    refine forall₂_congr fun s _ => imp_congr_right fun hne => ?_
    exact forall₂_congr fun l _ => hothers s.name (by simpa using hne) l
  have h₃ : (∀ s ∈ repeats (·.name = name) e.sections, ∀ l ∈ s.lines, Q s.name l) ↔
      ∀ s ∈ repeats (·.name = name) e.sections, ∀ l ∈ s.lines, Q' s.name l := by
    refine forall₂_congr fun s hs => ?_
    rw [hrepeat s hs]
    exact hlater s hs
  rw [h₁, h₃]
  -- Without such a section nothing is changed.
  cases hfind : e.sections.find? (·.name = name) with
  | none =>
      have hw : W := hexists.resolve_left (by simp [hfind])
      simp [hw]
  | some s =>
      have hs := hmatch s hfind
      have h₂ : (∀ l ∈ (f s).lines, Q (f s).name l) ↔ (∀ l ∈ s.lines, Q' s.name l) ∧ W := by
        rw [hname, hs]
        exact hfirst s hfind
      simp only [Option.mem_def, Option.some.injEq, forall_eq', h₂]
      tauto

/-- A change that writes only lines with the property leaves no others. -/
theorem allLines_change (h : AllLines Q e) (hname : ∀ s, (f s).name = s.name)
    (hf : ∀ s, s.name = name → (∀ l ∈ s.lines, Q name l) → ∀ l ∈ (f s).lines, Q name l) :
    AllLines Q (e.change name f) := by
  rw [AllLines, Entry.change,
    forall_mem_mapFirst_iff (fun s : Section => decide (s.name = name)) f (fun s : Section => ∀ l ∈ s.lines, Q s.name l)]
  obtain ⟨hothers, hfirst, hlater⟩ :=
    (forall_mem_iff_find? (fun s : Section => decide (s.name = name)) (fun s : Section => ∀ l ∈ s.lines, Q s.name l) _).mp h
  refine ⟨hothers, fun s hs => ?_, hlater⟩
  have hsname : s.name = name := by simpa using List.find?_some hs
  rw [hname, hsname]
  exact hf s hsname (hsname ▸ hfirst s hs)

theorem allLines_set (h : AllLines Q e) {key value : Text} (hnew : Q name (.key key value)) :
    AllLines Q (e.set name key value) := by
  refine allLines_change h (fun s => s.name_set key value) fun s _ hs l hl => ?_
  rcases Section.mem_set.mp hl with rfl | ⟨hl, _⟩
  · exact hnew
  · exact hs l hl

theorem allLines_filter (h : AllLines Q e) (p : Line → Bool) :
    AllLines Q (e.change name fun s => { s with lines := s.lines.filter p }) :=
  allLines_change h (fun _ => rfl) fun _ _ hs l hl => hs l (List.mem_of_mem_filter hl)

theorem allLines_addSection (name : Text) : AllLines Q (e.addSection name) ↔ AllLines Q e := by
  rw [Entry.addSection]
  split
  · exact Iff.rfl
  · simp [AllLines, or_imp, forall_and]

theorem allLines_removeSection (h : AllLines Q e) (name : Text) :
    AllLines Q (e.removeSection name) :=
  fun s hs => h s (List.mem_of_mem_filter hs)

end Changes

/-! ## Section 3: Values of One Line -/

/-- The values of the keys in `D` are one line each. -/
def KeptOn (D : Text → Text → Prop) (e : Entry) : Prop :=
  AllLines (fun name l => ∀ k v, l = .key k v → D name k → OneLine v) e

/-- The values of the sections that are not the first of their names are one line each. No change
ever comes to these. -/
def LaterKept (e : Entry) : Prop :=
  ∀ name, ∀ s ∈ repeats (·.name = name) e.sections, ∀ k v, .key k v ∈ s.lines → OneLine v

section Kept

variable {D D' : Text → Text → Prop} {e : Entry} {name key value : Text}

theorem keptOn_iff_kept : KeptOn (fun _ _ => True) e ↔ ∀ s ∈ e.sections, ∀ l ∈ s.lines, l.Kept := by
  refine forall₂_congr fun s _ => forall₂_congr fun l _ => ?_
  cases l with
  | other t => simp [Line.Kept]
  | key k v => simp [Line.Kept]

theorem KeptOn.mono (h : KeptOn D e) (hle : ∀ n k, D' n k → D n k) : KeptOn D' e :=
  fun s hs l hl k v hline hD => h s hs l hl k v hline (hle s.name k hD)

/-- Keys whose values are known to be one line each need not be looked at. -/
theorem keptOn_congr (hD' : KeptOn D' e) {D'' : Text → Text → Prop}
    (h : ∀ n k, ¬D' n k → (D n k ↔ D'' n k)) : KeptOn D e ↔ KeptOn D'' e := by
  refine forall₂_congr fun s hs => forall₂_congr fun l hl => forall₂_congr fun k v =>
    imp_congr_right fun hline => ?_
  -- A key that is known to be kept, or another.
  by_cases hk : D' s.name k
  · have hv := hD' s hs l hl k v hline hk
    exact ⟨fun _ _ => hv, fun _ _ => hv⟩
  · rw [h s.name k hk]

theorem repeats_change {f : Section → Section} (hname : ∀ s, (f s).name = s.name) (n : Text) :
    repeats (·.name = n) (e.change name f).sections = repeats (·.name = n) e.sections :=
  repeats_mapFirst hname name n e.sections

theorem LaterKept.change (h : LaterKept e) {f : Section → Section}
    (hname : ∀ s, (f s).name = s.name) : LaterKept (e.change name f) := by
  intro n s hs
  rw [repeats_change hname] at hs
  exact h n s hs

theorem hasSection_iff : e.hasSection name ↔ ∃ s ∈ e.sections, s.name = name := by
  simp [Entry.hasSection]

theorem LaterKept.addSection (h : LaterKept e) : LaterKept (e.addSection name) := by
  rw [Entry.addSection]
  split
  · exact h
  · rename_i hnew
    intro n s hs
    refine h n s ?_
    rwa [repeats_concat] at hs
    intro hname s' hs' hs'name
    refine hnew (hasSection_iff.mpr ⟨s', hs', ?_⟩)
    exact (of_decide_eq_true hs'name).trans (of_decide_eq_true hname).symm

theorem LaterKept.removeSection (h : LaterKept e) : LaterKept (e.removeSection name) := by
  intro n s hs
  rw [Entry.removeSection] at hs
  -- A section of the name removed, or of another.
  by_cases hn : n = name
  · rw [repeats_eq_nil] at hs
    · cases hs
    · intro s' hs' hs'name
      have hne : s'.name ≠ name := by simpa using (List.mem_filter.mp hs').2
      exact hne ((of_decide_eq_true hs'name).trans hn)
  · rw [repeats_filter] at hs
    · exact h n s hs
    · intro s' hs'name
      have hs'name : s'.name = n := by simpa using hs'name
      simpa [hs'name] using hn

/-- A change of the keys of one section, of those in `R` alone. -/
theorem keptOn_change {f : Section → Section} {R : Text → Prop} {W : Prop} (hlater : LaterKept e)
    (hsection : e.hasSection name) (hname : ∀ s, (f s).name = s.name)
    (hf : ∀ s, (∀ l ∈ (f s).lines, ∀ k v, l = .key k v → D name k → OneLine v) ↔
      (∀ l ∈ s.lines, ∀ k v, l = .key k v → D name k ∧ ¬R k → OneLine v) ∧ W) :
    KeptOn D (e.change name f) ↔ KeptOn (fun n k => D n k ∧ ¬(n = name ∧ R k)) e ∧ W := by
  refine allLines_change_iff hname (fun m hm l => ?_) (fun s hs => ?_) (fun s _ => ?_) (Or.inl ?_)
  · simp [hm]
  · exact ⟨fun _ l hl k v hline _ => hlater name s hs k v (hline ▸ hl),
      fun _ l hl k v hline _ => hlater name s hs k v (hline ▸ hl)⟩
  · simpa using hf s
  · obtain ⟨s, hs, hsname⟩ := hasSection_iff.mp hsection
    exact List.find?_isSome.mpr ⟨s, hs, by simpa using hsname⟩

/-- Setting a key is looking away from its old values, where there is the section. -/
theorem keptOn_set (hlater : LaterKept e) (hsection : e.hasSection name) :
    KeptOn D (e.set name key value) ↔
      KeptOn (fun n k => D n k ∧ ¬(n = name ∧ k = key)) e ∧ (D name key → OneLine value) := by
  refine keptOn_change hlater hsection (fun s => s.name_set key value) fun s => ?_
  constructor
  · intro h
    refine ⟨fun l hl k v hline hD => ?_, h _ (Section.mem_set.mpr (Or.inl rfl)) key value rfl⟩
    refine h l (Section.mem_set.mpr (Or.inr ⟨hl, ?_⟩)) k v hline hD.1
    rw [hline]
    exact if_neg hD.2
  · rintro ⟨hold, hnew⟩ l hl k v hline hD
    -- The new line, or one that is left.
    rcases Section.mem_set.mp hl with rfl | ⟨hl, hnone⟩
    · cases hline
      exact hnew hD
    · refine hold l hl k v hline ⟨hD, fun hk => ?_⟩
      simp [hline, Line.value?, hk] at hnone

/-- Leaving out lines is looking away from them. -/
theorem keptOn_filter {p : Line → Bool} {R : Text → Prop} (hlater : LaterKept e)
    (hsection : e.hasSection name) (hp : ∀ k v, p (.key k v) ↔ ¬R k) :
    KeptOn D (e.change name fun s => { s with lines := s.lines.filter p }) ↔
      KeptOn (fun n k => D n k ∧ ¬(n = name ∧ R k)) e := by
  -- A filter adds nothing.
  have hchange := keptOn_change (D := D) (R := R) (W := True)
    (f := fun s => { s with lines := s.lines.filter p }) hlater hsection fun _ => rfl
  rw [hchange, and_true]
  intro s
  rw [and_true]
  constructor
  · intro h l hl k v hline hD
    refine h l (List.mem_filter.mpr ⟨hl, ?_⟩) k v hline hD.1
    rw [hline]
    exact (hp k v).mpr hD.2
  · intro h l hl k v hline hD
    obtain ⟨hl, hkeep⟩ := List.mem_filter.mp hl
    rw [hline] at hkeep
    exact h l hl k v hline ⟨hD, (hp k v).mp hkeep⟩

theorem keptOn_remove (hlater : LaterKept e) (hsection : e.hasSection name) :
    KeptOn D (e.remove name key) ↔ KeptOn (fun n k => D n k ∧ ¬(n = name ∧ k = key)) e :=
  keptOn_filter hlater hsection fun k v => by
    by_cases hk : k = key <;> simp [Line.value?, hk]

theorem keptOn_removeAll (hlater : LaterKept e) (hsection : e.hasSection name) :
    KeptOn D (e.removeAll name key) ↔
      KeptOn (fun n k => D n k ∧ ¬(n = name ∧ (Line.key k []).translates key)) e :=
  keptOn_filter hlater hsection fun k v => by
    rw [show (Line.key k v).translates key = (Line.key k []).translates key from rfl]
    simp

theorem keptOn_addSection : KeptOn D (e.addSection name) ↔ KeptOn D e :=
  allLines_addSection name

theorem keptOn_removeSection :
    KeptOn D (e.removeSection name) ↔ KeptOn (fun n k => D n k ∧ n ≠ name) e := by
  constructor
  · intro h s hs l hl k v hline hD
    exact h s (List.mem_filter.mpr ⟨hs, by simpa using hD.2⟩) l hl k v hline hD.1
  · intro h s hs l hl k v hline hD
    obtain ⟨hs, hne⟩ := List.mem_filter.mp hs
    exact h s hs l hl k v hline ⟨hD, by simpa using hne⟩

theorem KeptOn.set (h : KeptOn D e) (hvalue : D name key → OneLine value) :
    KeptOn D (e.set name key value) :=
  allLines_set h fun k v hline hD => by
    cases hline
    exact hvalue hD

end Kept

end Psbox.Desktop
