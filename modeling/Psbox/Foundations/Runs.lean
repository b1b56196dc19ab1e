import Mathlib.Tactic.Common

/-!
# Runs of a Partial Step Function

A system is a state and a step function that fails where an action is not
possible. A run is a list of actions that are all possible, one after the other.

The rules here carry an invariant from a step to a run, for runs whose steps all
meet a condition on the state before them and the action.
-/

namespace Psbox.Foundations

variable {σ α : Type*}

/-- The state after the actions, when each is possible in turn. -/
def run (step : σ → α → Option σ) : σ → List α → Option σ
  | s, [] => some s
  | s, a :: as => (step s a).bind fun s' => run step s' as

/-- Every step of the run meets `C`, a condition on the state before it and its
action. -/
def StepsMeet (step : σ → α → Option σ) (C : σ → α → Prop) : σ → List α → Prop
  | _, [] => True
  | s, a :: as => C s a ∧ ∀ s', step s a = some s' → StepsMeet step C s' as

/-- Whether the steps of a given run meet the condition can be computed. -/
instance StepsMeet.decidable (step : σ → α → Option σ) (C : σ → α → Prop)
    [∀ s a, Decidable (C s a)] : ∀ s as, Decidable (StepsMeet step C s as)
  | _, [] => isTrue trivial
  | s, a :: as =>
      match h : step s a with
      | none => decidable_of_iff (C s a) ⟨fun hc => ⟨hc, by simp [h]⟩, And.left⟩
      | some s' =>
          -- The state before the next step is known, so the rest can be decided too.
          have := StepsMeet.decidable step C s' as
          decidable_of_iff (C s a ∧ StepsMeet step C s' as)
            ⟨fun hm => ⟨hm.1, by simpa [h] using hm.2⟩, fun hm => ⟨hm.1, hm.2 s' h⟩⟩

/-- A run that is possible, and ends in a state that passes a check. -/
theorem exists_of_any {o : Option σ} {p : σ → Bool} (h : o.any p = true) :
    ∃ s, o = some s ∧ p s = true := by
  cases o with
  | none => cases h
  | some s => exact ⟨s, rfl, h⟩

section Rules

variable {step : σ → α → Option σ} {C : σ → α → Prop} {I : σ → Prop}

theorem run_cons_eq_some {s s'' : σ} {a : α} {as : List α} :
    run step s (a :: as) = some s'' ↔ ∃ s', step s a = some s' ∧ run step s' as = some s'' :=
  Option.bind_eq_some_iff

/-- A run of two parts. -/
theorem run_append (s : σ) (as bs : List α) :
    run step s (as ++ bs) = (run step s as).bind fun s' => run step s' bs := by
  -- By induction over the first part.
  induction as generalizing s with
  | nil => rfl
  | cons a as ih =>
      simp only [List.cons_append, run, Option.bind_assoc]
      exact congrArg _ (funext ih)

/-- A condition that the actions meet in every state. -/
theorem stepsMeet_of_forall {as : List α} (h : ∀ a ∈ as, ∀ s, C s a) (s : σ) :
    StepsMeet step C s as := by
  induction as generalizing s with
  | nil => trivial
  | cons a as ih =>
      exact ⟨h a List.mem_cons_self s, fun s' _ =>
        ih (fun a' ha' => h a' (List.mem_cons_of_mem _ ha')) s'⟩

theorem StepsMeet.mono {D : σ → α → Prop} (h : ∀ s a, C s a → D s a) {s : σ} {as : List α}
    (hmeets : StepsMeet step C s as) : StepsMeet step D s as := by
  induction as generalizing s with
  | nil => trivial
  | cons a as ih => exact ⟨h s a hmeets.1, fun s' hs' => ih (hmeets.2 s' hs')⟩

/-- An invariant of the steps that meet `C` is an invariant of the runs whose
steps all do. -/
theorem run_invariant_of_meets
    (hstep : ∀ s a s', I s → C s a → step s a = some s' → I s')
    {s s' : σ} {as : List α} (hinit : I s) (hmeets : StepsMeet step C s as)
    (hrun : run step s as = some s') : I s' := by
  -- Induction over the actions, the invariant going on from state to state.
  induction as generalizing s with
  | nil =>
      cases hrun
      exact hinit
  | cons a as ih =>
      obtain ⟨t, ht, hrest⟩ := run_cons_eq_some.mp hrun
      exact ih (hstep s a t hinit hmeets.1 ht) (hmeets.2 t ht) hrest

/-- What an invariant gives of each step, the steps of a run all have. -/
theorem stepsMeet_of_invariant {D : σ → α → Prop}
    (hstep : ∀ s a s', I s → C s a → step s a = some s' → I s')
    (hgives : ∀ s a, I s → C s a → D s a) {s : σ} {as : List α} (hinit : I s)
    (hmeets : StepsMeet step C s as) : StepsMeet step D s as := by
  -- Induction over the actions; the invariant is at hand before each of them.
  induction as generalizing s with
  | nil => trivial
  | cons a as ih =>
      exact ⟨hgives s a hinit hmeets.1, fun s' hs' =>
        ih (hstep s a s' hinit hmeets.1 hs') (hmeets.2 s' hs')⟩

/-- Two conditions that say the same of the states of an invariant, which the steps that meet them keep. -/
theorem stepsMeet_iff_of_inv {D : σ → α → Prop} (hinv : ∀ s a s', I s → D s a → step s a = some s' → I s')
    (hiff : ∀ s a, I s → (C s a ↔ D s a)) {s : σ} {as : List α} (hinit : I s) :
    StepsMeet step C s as ↔ StepsMeet step D s as := by
  -- The two conditions are exchanged at each step, and the invariant carries on.
  induction as generalizing s with
  | nil => exact Iff.rfl
  | cons a as ih =>
      unfold StepsMeet
      rw [hiff s a hinit]
      apply and_congr_right
      intro hD
      exact forall₂_congr fun s' hs' => ih (hinv s a s' hinit hD hs')

/-- An invariant of the steps is an invariant of the runs. -/
theorem run_invariant (hstep : ∀ s a s', I s → step s a = some s' → I s')
    {s s' : σ} {as : List α} (hinit : I s) (hrun : run step s as = some s') : I s' := by
  induction as generalizing s with
  | nil =>
      cases hrun
      exact hinit
  | cons a as ih =>
      obtain ⟨t, ht, hrest⟩ := run_cons_eq_some.mp hrun
      exact ih (hstep s a t hinit ht) hrest

/-- An invariant of the state and of the actions so far. -/
theorem run_invariant_history {H : σ → List α → Prop}
    (hstep : ∀ s as a s', H s as → step s a = some s' → H s' (as ++ [a])) {s s' : σ} {before as : List α}
    (hinit : H s before) (hrun : run step s as = some s') : H s' (before ++ as) := by
  -- What has been done grows by one action a step.
  induction as generalizing s before with
  | nil =>
      cases hrun
      rw [List.append_nil]
      exact hinit
  | cons a as ih =>
      obtain ⟨t, ht, hrest⟩ := run_cons_eq_some.mp hrun
      have hlater := ih (hstep s before a t hinit ht) hrest
      rw [List.append_assoc] at hlater
      exact hlater

/-- When a step keeps a property exactly if it meets `C`, a run does exactly if every
step of it meets `C`. -/
theorem run_iff_of_step {P : σ → Prop}
    (hstep : ∀ s a s', step s a = some s' → (P s' ↔ P s ∧ C s a))
    {s s' : σ} {as : List α} (hrun : run step s as = some s') :
    P s' ↔ P s ∧ StepsMeet step C s as := by
  -- A step that does not meet the condition ends the property for good.
  induction as generalizing s with
  | nil =>
      cases hrun
      exact ⟨fun h => ⟨h, trivial⟩, And.left⟩
  | cons a as ih =>
      obtain ⟨t, ht, hrest⟩ := run_cons_eq_some.mp hrun
      rw [ih hrest, hstep s a t ht, and_assoc]
      refine and_congr_right fun _ => and_congr_right fun _ => ?_
      constructor
      · intro h u hu
        -- The step leads to one state only.
        cases ht.symm.trans hu
        exact h
      · intro h
        exact h t ht

/-- The same in the states that an invariant holds in, for actions that meet a
condition of their own. -/
theorem run_iff_of_step_of_inv {P : σ → Prop} {H : σ → α → Prop}
    (hinv : ∀ s a s', I s → step s a = some s' → I s')
    (hstep : ∀ s a s', I s → H s a → step s a = some s' → (P s' ↔ P s ∧ C s a))
    {s s' : σ} {as : List α} (hinit : I s) (hmeets : StepsMeet step H s as)
    (hrun : run step s as = some s') : P s' ↔ P s ∧ StepsMeet step C s as := by
  -- As before, with the invariant of each state at hand.
  induction as generalizing s with
  | nil =>
      cases hrun
      exact ⟨fun h => ⟨h, trivial⟩, And.left⟩
  | cons a as ih =>
      obtain ⟨t, ht, hrest⟩ := run_cons_eq_some.mp hrun
      rw [ih (hinv s a t hinit ht) (hmeets.2 t ht) hrest, hstep s a t hinit hmeets.1 ht, and_assoc]
      apply and_congr_right
      intro _
      apply and_congr_right
      intro _
      constructor
      · intro h u hu
        cases ht.symm.trans hu
        exact h
      · intro h
        exact h t ht

end Rules

/-! ## Watching a System -/

section Watched

variable {ω : Type*} {step : σ → α → Option σ} {see : σ → α → ω → ω}

/-- A system with an observer, which sees each step and has no say in it. -/
def watched (step : σ → α → Option σ) (see : σ → α → ω → ω) (p : σ × ω) (a : α) :
    Option (σ × ω) :=
  (step p.1 a).map fun s' => (s', see p.1 a p.2)

theorem watched_eq_some {s s' : σ} {w w' : ω} {a : α} :
    watched step see (s, w) a = some (s', w') ↔ step s a = some s' ∧ see s a w = w' := by
  simp [watched]

end Watched

end Psbox.Foundations
