import Mathlib.Data.List.Basic
import Mathlib.Tactic.Common

/-!
# Computations that Report Problems

A checker that does not stop at the first problem goes on with a default and reports the problem. Such a
computation has a result and a list of problems, which only ever grows.

It accepts when it has reported nothing at all. The rules here say when that is: when all its parts accept,
so that a checker reads as the conditions it checks.
-/

namespace Psbox.Foundations

universe u v

/-- A computation with a result, which may add to the problems reported before it. -/
structure Report (ε : Type u) (α : Type v) where
  run : List ε → α × List ε
  grows : ∀ es, es <+: (run es).2

namespace Report

variable {ε : Type u} {α β σ : Type v}

instance : Monad (Report.{u, v} ε) where
  pure a := ⟨fun es => (a, es), fun es => List.prefix_refl es⟩
  bind m f := ⟨fun es => (f (m.run es).1).run (m.run es).2, fun es => (m.grows es).trans ((f _).grows _)⟩

def report (e : ε) : Report ε PUnit.{v + 1} :=
  ⟨fun es => (⟨⟩, es ++ [e]), fun es => List.prefix_append es [e]⟩

/-- Something is done for each item, which may have a result. -/
def each {γ : Type*} (f : γ → Report ε (Option β)) : List γ → Report ε (List β)
  | [] => pure []
  | a :: as => do
      let b ← f a
      let bs ← each f as
      pure (b.toList ++ bs)

/-- Those problems are added, rewritten, that are not there as they are. -/
def addNew [DecidableEq ε] (f : ε → ε) (es new : List ε) : List ε :=
  new.foldl (fun es e => if e ∈ es then es else es ++ [f e]) es

theorem prefix_addNew [DecidableEq ε] (f : ε → ε) (es new : List ε) : es <+: addNew f es new := by
  induction new generalizing es with
  | nil => exact List.prefix_refl es
  | cons e new ih =>
      rw [addNew, List.foldl_cons]
      split
      · exact ih es
      · exact (List.prefix_append es [f e]).trans (ih _)

/-- A computation that starts without problems; of its own those are reported that are new. -/
def adopt [DecidableEq ε] (f : ε → ε) (m : Report ε α) : Report ε α where
  run es := ((m.run []).1, addNew f es (m.run []).2)
  grows es := prefix_addNew f es (m.run []).2

/-- The result, or what has been reported. -/
def finish (m : Report ε α) : Except (List ε) α :=
  if (m.run []).2.isEmpty then .ok (m.run []).1 else .error (m.run []).2

/-- It has the result, and nothing is reported. -/
def Accepts (m : Report ε α) (a : α) : Prop :=
  m.run [] = (a, [])

theorem finish_eq_ok {m : Report ε α} {a : α} : m.finish = .ok a ↔ m.Accepts a := by
  unfold finish Accepts
  rcases m.run [] with ⟨b, es⟩
  cases es <;> simp

theorem Accepts.unique {m : Report ε α} {a b : α} (ha : m.Accepts a) (hb : m.Accepts b) : a = b :=
  congrArg Prod.fst (ha.symm.trans hb)

@[simp]
theorem accepts_pure {a b : α} : (pure a : Report ε α).Accepts b ↔ a = b := by
  change (a, []) = (b, []) ↔ a = b
  simp

@[simp]
theorem accepts_bind {m : Report ε α} {f : α → Report ε β} {b : β} :
    (m >>= f).Accepts b ↔ ∃ a, m.Accepts a ∧ (f a).Accepts b := by
  change (f (m.run []).1).run (m.run []).2 = (b, []) ↔ _
  constructor
  · intro h
    -- What is reported first would still be there.
    have hfirst : (m.run []).2 = [] := by
      have hgrows := (f (m.run []).1).grows (m.run []).2
      rw [h] at hgrows
      exact List.prefix_nil.mp hgrows
    rw [hfirst] at h
    exact ⟨(m.run []).1, Prod.ext rfl hfirst, h⟩
  · rintro ⟨a, ha, hb⟩
    rw [Accepts] at ha
    rw [ha]
    exact hb

@[simp]
theorem not_accepts_report (e : ε) (a : PUnit) : ¬(report e).Accepts a := by
  intro h
  cases congrArg Prod.snd h

@[simp]
theorem accepts_each_nil {γ : Type*} {f : γ → Report ε (Option β)} {bs : List β} :
    (each f []).Accepts bs ↔ bs = [] :=
  accepts_pure.trans eq_comm

theorem accepts_each_cons {γ : Type*} {f : γ → Report ε (Option β)} {a : γ} {as : List γ} {bs : List β} :
    (each f (a :: as)).Accepts bs ↔
      ∃ b cs, (f a).Accepts b ∧ (each f as).Accepts cs ∧ bs = b.toList ++ cs := by
  rw [each]
  constructor
  · intro h
    obtain ⟨b, hb, h⟩ := accepts_bind.mp h
    obtain ⟨cs, hcs, h⟩ := accepts_bind.mp h
    exact ⟨b, cs, hb, hcs, (accepts_pure.mp h).symm⟩
  · rintro ⟨b, cs, hb, hcs, rfl⟩
    exact accepts_bind.mpr ⟨b, hb, accepts_bind.mpr ⟨cs, hcs, accepts_pure.mpr rfl⟩⟩

/-- Each result is that of an item. -/
theorem Accepts.of_mem_each {γ : Type*} {f : γ → Report ε (Option β)} {as : List γ} {bs : List β}
    (h : (each f as).Accepts bs) {b : β} (hb : b ∈ bs) : ∃ a ∈ as, (f a).Accepts (some b) := by
  induction as generalizing bs with
  | nil =>
      rw [accepts_each_nil.mp h] at hb
      cases hb
  | cons a as ih =>
      obtain ⟨o, cs, ho, hcs, rfl⟩ := accepts_each_cons.mp h
      rcases List.mem_append.mp hb with hb | hb
      · rw [Option.mem_toList.mp hb] at ho
        exact ⟨a, List.mem_cons_self, ho⟩
      · obtain ⟨a', ha', haccepts⟩ := ih hcs hb
        exact ⟨a', List.mem_cons_of_mem a ha', haccepts⟩

/-- For each item nothing is reported. -/
theorem Accepts.each_mem {γ : Type*} {f : γ → Report ε (Option β)} {as : List γ} {bs : List β}
    (h : (each f as).Accepts bs) {a : γ} (ha : a ∈ as) : ∃ o, (f a).Accepts o ∧ ∀ b ∈ o, b ∈ bs := by
  induction as generalizing bs with
  | nil => cases ha
  | cons a' as ih =>
      obtain ⟨o, cs, ho, hcs, rfl⟩ := accepts_each_cons.mp h
      rcases List.mem_cons.mp ha with rfl | ha
      · exact ⟨o, ho, fun b hb => List.mem_append_left _ (Option.mem_toList.mpr hb)⟩
      · obtain ⟨o', ho', hmem⟩ := ih hcs ha
        exact ⟨o', ho', fun b hb => List.mem_append_right _ (hmem b hb)⟩

theorem accepts_each_filterMap {γ : Type*} {f : γ → Report ε (Option β)} {r : γ → Option β} {as : List γ}
    (h : ∀ a ∈ as, (f a).Accepts (r a)) : (each f as).Accepts (as.filterMap r) := by
  induction as with
  | nil => exact accepts_each_nil.mpr rfl
  | cons a as ih =>
      obtain ⟨ha, has⟩ := List.forall_mem_cons.mp h
      refine accepts_each_cons.mpr ⟨r a, as.filterMap r, ha, ih has, ?_⟩
      cases hr : r a <;> simp [hr]

/-- Items with the results of their own. -/
theorem accepts_each_map {γ δ : Type*} {f : γ → Report ε (Option β)} {g : δ → γ} {r : δ → β} {l : List δ}
    (h : ∀ d ∈ l, (f (g d)).Accepts (some (r d))) : (each f (l.map g)).Accepts (l.map r) := by
  induction l with
  | nil => exact accepts_each_nil.mpr rfl
  | cons d l ih =>
      obtain ⟨hd, hl⟩ := List.forall_mem_cons.mp h
      exact accepts_each_cons.mpr ⟨some (r d), l.map r, hd, ih hl, rfl⟩

@[simp]
theorem accepts_forM {γ : Type*} {f : γ → Report ε PUnit} {as : List γ} {u : PUnit} :
    (forM as f).Accepts u ↔ ∀ a ∈ as, (f a).Accepts ⟨⟩ := by
  induction as with
  | nil => simp
  | cons a as ih =>
      rw [List.forM_cons, accepts_bind, List.forall_mem_cons, ← ih]
      constructor
      · rintro ⟨_, ha, has⟩
        exact ⟨ha, has⟩
      · rintro ⟨ha, has⟩
        exact ⟨⟨⟩, ha, has⟩

/-- When nothing has been reported before, every problem is new. -/
@[simp]
theorem accepts_adopt [DecidableEq ε] {f : ε → ε} {m : Report ε α} {a : α} :
    (m.adopt f).Accepts a ↔ m.Accepts a := by
  have hnew : ∀ new : List ε, addNew f [] new = [] ↔ new = [] := by
    intro new
    cases new with
    | nil => exact ⟨fun _ => rfl, fun _ => rfl⟩
    | cons e new =>
        have hgrows : [f e] <+: addNew f [] (e :: new) := prefix_addNew f [f e] new
        constructor
        · intro h
          rw [h] at hgrows
          cases List.prefix_nil.mp hgrows
        · intro h
          cases h
  change ((m.run []).1, addNew f [] (m.run []).2) = (a, []) ↔ m.run [] = (a, [])
  rw [Prod.mk.injEq, hnew, Prod.ext_iff]

end Report

end Psbox.Foundations
