import Mathlib.Data.List.Basic

/-!
# Tasks Started and Finished in the Order They Arrived

A pipeline takes tasks in, starts them and finishes them, one at a time. Its five
lists are in the order of what happened: a task waits, is started when it is at the
head of those waiting and nothing is underway, and is finished or fails.

Nothing says that a task is finished, only that no task overtakes another:
`InOrder` holds in every state reached, and tells how often each task is started.
-/

namespace Psbox.Foundations

variable {α : Type*}

structure Pipeline (α : Type*) where
  arrived : List α
  waiting : List α
  started : List α
  underway : List α
  finished : List α

namespace Pipeline

inductive Step : Pipeline α → Pipeline α → Prop where
  | same (p : Pipeline α) : Step p p
  /-- A task arrives and is done with at once. -/
  | turnedAway (p : Pipeline α) (a : α) : Step p { p with arrived := p.arrived ++ [a] }
  | arrives (p : Pipeline α) (a : α) :
      Step p { p with arrived := p.arrived ++ [a], waiting := p.waiting ++ [a] }
  | dropped (p : Pipeline α) (before : List α) (a : α) (after : List α)
      (hwaiting : p.waiting = before ++ a :: after) :
      Step p { p with waiting := before ++ after }
  | starts (p : Pipeline α) (a : α) (rest : List α) (hwaiting : p.waiting = a :: rest)
      (hfree : p.underway = []) :
      Step p { p with waiting := rest, started := p.started ++ [a], underway := [a] }
  /-- A task is started and over at once. -/
  | rejects (p : Pipeline α) (a : α) (rest : List α) (hwaiting : p.waiting = a :: rest)
      (hfree : p.underway = []) :
      Step p { p with waiting := rest, started := p.started ++ [a] }
  | finishes (p : Pipeline α) (a : α) (hunderway : p.underway = [a]) :
      Step p { p with underway := [], finished := p.finished ++ [a] }
  | fails (p : Pipeline α) (a : α) (hunderway : p.underway = [a]) :
      Step p { p with underway := [] }

/-- No task is started or finished before one that arrived earlier, or twice. -/
structure InOrder (p : Pipeline α) : Prop where
  started : (p.started ++ p.waiting).Sublist p.arrived
  finished : (p.finished ++ p.underway).Sublist p.started

theorem InOrder.step {p p' : Pipeline α} (h : p.InOrder) (hstep : Step p p') : p'.InOrder := by
  obtain ⟨hstarted, hfinished⟩ := h
  cases hstep with
  | same => exact ⟨hstarted, hfinished⟩
  | turnedAway a => exact ⟨hstarted.trans (List.sublist_append_left _ _), hfinished⟩
  | arrives a =>
      refine ⟨?_, hfinished⟩
      rw [← List.append_assoc]
      exact hstarted.append_right [a]
  | dropped before a after hwaiting =>
      refine ⟨?_, hfinished⟩
      have hless : (before ++ after).Sublist p.waiting := by
        rw [hwaiting]
        exact (List.sublist_cons_self a after).append_left before
      exact (hless.append_left p.started).trans hstarted
  | starts a rest hwaiting hfree =>
      rw [hwaiting] at hstarted
      rw [hfree, List.append_nil] at hfinished
      refine ⟨?_, hfinished.append_right [a]⟩
      simpa using hstarted
  | rejects a rest hwaiting hfree =>
      rw [hwaiting] at hstarted
      rw [hfree] at hfinished
      refine ⟨by simpa using hstarted, ?_⟩
      show (p.finished ++ p.underway).Sublist (p.started ++ [a])
      rw [hfree]
      exact hfinished.trans (List.sublist_append_left _ _)
  | finishes a hunderway =>
      rw [hunderway] at hfinished
      exact ⟨hstarted, by simpa using hfinished⟩
  | fails a hunderway =>
      refine ⟨hstarted, ?_⟩
      rw [List.append_nil]
      exact (List.sublist_append_left _ _).trans hfinished

/-- A step takes in one task at most. -/
theorem Step.arrived {p p' : Pipeline α} (hstep : Step p p') :
    p'.arrived = p.arrived ∨ ∃ a, p'.arrived = p.arrived ++ [a] := by
  cases hstep with
  | turnedAway a | arrives a => exact Or.inr ⟨a, rfl⟩
  | _ => exact Or.inl rfl

/-- What waits arrived. -/
theorem InOrder.mem_arrived_of_waiting {p : Pipeline α} (h : p.InOrder) {a : α}
    (ha : a ∈ p.waiting) : a ∈ p.arrived :=
  h.started.subset (List.mem_append_right _ ha)

/-- What is underway arrived. -/
theorem InOrder.mem_arrived_of_underway {p : Pipeline α} (h : p.InOrder) {a : α}
    (ha : a ∈ p.underway) : a ∈ p.arrived :=
  h.started.subset (List.mem_append_left _ (h.finished.subset (List.mem_append_right _ ha)))

end Pipeline

end Psbox.Foundations
