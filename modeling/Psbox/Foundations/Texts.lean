import Mathlib.Data.List.TakeWhile

/-!
# Parts of a Text

A text that is read up to a first character of some kind, or broken there into what comes before it and
what comes after.
-/

namespace Psbox.Foundations

variable {α : Type*}

section Stops

variable {p : α → Bool} {l rest : List α} {c : α}

theorem takeWhile_append_cons (hl : ∀ x ∈ l, p x = true) (hc : p c = false) :
    (l ++ c :: rest).takeWhile p = l := by
  rw [List.takeWhile_append_of_pos hl, List.takeWhile_cons_of_neg (by simp [hc]), List.append_nil]

theorem dropWhile_append_cons (hl : ∀ x ∈ l, p x = true) (hc : p c = false) :
    (l ++ c :: rest).dropWhile p = c :: rest := by
  rw [List.dropWhile_append_of_pos hl, List.dropWhile_cons_of_neg (by simp [hc])]

end Stops

variable [DecidableEq α] {c : α} {l before after : List α}

/-- What comes before the first `c`, and what comes after it. -/
def breakAt (c : α) (l : List α) : Option (List α × List α) :=
  if c ∈ l then some (l.takeWhile (· ≠ c), (l.dropWhile (· ≠ c)).tail) else none

theorem breakAt_append (h : c ∉ before) : breakAt c (before ++ c :: after) = some (before, after) := by
  have hbefore : ∀ x ∈ before, decide (x ≠ c) = true := by
    intro x hx
    apply decide_eq_true
    rintro rfl
    exact h hx
  rw [breakAt, if_pos (by simp), takeWhile_append_cons hbefore (by simp), dropWhile_append_cons hbefore (by simp)]
  rfl

theorem breakAt_eq_some : breakAt c l = some (before, after) ↔ l = before ++ c :: after ∧ c ∉ before := by
  constructor
  · intro h
    rw [breakAt] at h
    split at h
    · rename_i hc
      cases h
      have hne : l.dropWhile (· ≠ c) ≠ [] := by
        intro hnil
        simpa using List.dropWhile_eq_nil_iff.mp hnil c hc
      have hhead : (l.dropWhile (· ≠ c)).head hne = c := by
        simpa using List.head_dropWhile_not (fun x => decide (x ≠ c)) hne
      constructor
      · calc l = l.takeWhile (· ≠ c) ++ l.dropWhile (· ≠ c) := List.takeWhile_append_dropWhile.symm
          _ = l.takeWhile (· ≠ c) ++ (l.dropWhile (· ≠ c)).head hne :: (l.dropWhile (· ≠ c)).tail := by
            rw [List.cons_head_tail hne]
          _ = l.takeWhile (· ≠ c) ++ c :: (l.dropWhile (· ≠ c)).tail := by rw [hhead]
      · intro hmem
        simpa using List.mem_takeWhile_imp hmem
    · cases h
  · rintro ⟨rfl, h⟩
    exact breakAt_append h

theorem breakAt_eq_none : breakAt c l = none ↔ c ∉ l := by
  simp [breakAt]

end Psbox.Foundations
